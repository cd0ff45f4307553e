import DeclLayer.Store.Basic

/-!
# File systems

A file system holds files under absolute paths, and fails for a reason. Seen from a directory
(`Rooted`) it is a store, in which a file that is not there is no failure.
-/

namespace DeclLayer

/-- Why a file cannot be read or written. -/
inductive FileError where
  | notFound
  /-- The path goes on below a file. -/
  | notADirectory
  | isADirectory
  /-- A directory cannot be made where a file is. -/
  | fileExists
  /-- The path, or a name in it, has too many bytes. -/
  | nameTooLong
  /-- The path has a character that ends texts for the system. -/
  | zeroInPath
  /-- A reason that only the system knows. -/
  | other (reason : String)
  deriving DecidableEq, Repr

/-- The wording of a failure. -/
def FileError.text : FileError → String
  | .notFound => "No such file or directory (os error 2)"
  | .notADirectory => "Not a directory (os error 20)"
  | .isADirectory => "Is a directory (os error 21)"
  | .fileExists => "File exists (os error 17)"
  | .nameTooLong => "File name too long (os error 36)"
  | .zeroInPath => "file name contained an unexpected NUL byte"
  | .other reason => reason

/-- The values of `φ` hold files under absolute paths. -/
class FileSystem (φ : Type) where
  read : φ → Path → Except FileError String
  /-- Puts a text under a path, with the directories that lead to it. -/
  write : φ → Path → String → Except FileError Unit × φ

/-- Whether there is a file at a path, readable or not. -/
def FileSystem.hasFile {φ : Type} [FileSystem φ] (files : φ) (path : Path) : Bool :=
  match FileSystem.read files path with
  | .ok _ => true
  | .error (.other _) => true
  | .error _ => false

/-- A file system seen from a directory. -/
structure Rooted (φ : Type) where
  root : Path
  files : φ

instance {φ : Type} [FileSystem φ] : Store (Rooted φ) where
  read s path :=
    match FileSystem.read s.files (s.root.join path) with
    | .ok text => .ok (some text)
    | .error .notFound => .ok none
    | .error e => .error e.text
  write s path text :=
    let (result, files) := FileSystem.write s.files (s.root.join path) text
    (result.mapError FileError.text, { s with files := files })

end DeclLayer
