import DeclLayer.Store.FileSystem

/-!
# File trees

A file system as a value. Its entries are files and directories under the names that lead to them
from the root, which is always a directory. A path is followed name by name (`FileTree.follow`), and
each name but the last has to lead to a directory.

Writing a file (`FileTree.write`) has two parts: `makeDirectories` makes the directories above the
last name of the path, and `create` puts the file where the path leads to as it is written. The two
differ if the path ends in a dot, which is no name. What the first part has made stays if the second
one fails.
-/

namespace DeclLayer

/-- What a path leads to. -/
inductive Entry where
  | file (text : String)
  | directory
  deriving DecidableEq, Repr

/-- Files and directories by the names that lead to them. -/
structure FileTree where
  entries : List (List String × Entry)
  deriving DecidableEq, Repr

namespace FileTree

/-- Only the root. -/
def empty : FileTree := ⟨[]⟩

/-- The entry under some names. -/
def entry? (t : FileTree) (names : List String) : Option Entry :=
  if names.isEmpty then some .directory else t.entries.lookup names

/-- A tree without an entry. -/
def erase (t : FileTree) (names : List String) : FileTree :=
  ⟨t.entries.filter (·.1 != names)⟩

/-- A tree with an entry, in place of the one under the same names. -/
def put (t : FileTree) (names : List String) (entry : Entry) : FileTree :=
  ⟨(t.erase names).entries ++ [(names, entry)]⟩

/-- The files of a tree with their texts. -/
def files (t : FileTree) : List (List String × String) :=
  t.entries.filterMap fun
    | (names, .file text) => some (names, text)
    | (_, .directory) => none

/-- The words between the separators of a path. -/
def words (path : Path) : List String :=
  ((Text.splitAt '/' path.text.toList).map String.ofList).filter (· != "")

/-- Whether a path ends in a separator, and so asks for a directory. -/
def asksDirectory (path : Path) : Bool :=
  path.text.toList.getLast? == some '/'

/-- Whether a word stands for a directory that is there already: a dot for the one it is read in,
two dots for the one above. -/
def isDots (word : String) : Bool :=
  word == "." || word == ".."

/-- The most bytes that a name has. -/
def longestName : Nat := 255

/-- Whether a name has too many bytes. -/
def isTooLong (name : String) : Bool :=
  longestName < Text.utf8Size name.toList

/-- The bytes that a path stays below. -/
def pathLimit : Nat := 4096

/-- A path that a file system can be asked for. -/
def checked (path : Path) : Except FileError Path :=
  if path.text.toList.contains '\x00' then .error .zeroInPath
  else if pathLimit ≤ Text.utf8Size path.text.toList then .error .nameTooLong
  else .ok path

/-- Where a word leads to from a directory. -/
def step (directory : List String) (word : String) : List String :=
  if word = "." then directory
  else if word = ".." then directory.dropLast
  else directory ++ [word]

/-- The names that some words lead to, read in a directory. -/
def follow (t : FileTree) (place : List String) : List String → Except FileError (List String)
  | [] => .ok place
  | word :: words =>
    match t.entry? place with
    | some .directory =>
      if isTooLong word then .error .nameTooLong else follow t (step place word) words
    | some (.file _) => .error .notADirectory
    | none => .error .notFound

/-- The names of the directory that some words lead to. -/
def directoryAt (t : FileTree) (words : List String) : Except FileError (List String) := do
  let place ← t.follow [] words
  match t.entry? place with
  | some .directory => .ok place
  | some (.file _) => .error .notADirectory
  | none => .error .notFound

/-- Makes a directory in one that is there. -/
def addDirectory (t : FileTree) (words : List String) : Except FileError FileTree := do
  match words.getLast? with
  | none => .error .fileExists
  | some word =>
    let place ← t.directoryAt words.dropLast
    if isDots word then .error .fileExists
    else if isTooLong word then .error .nameTooLong
    else if (t.entry? (place ++ [word])).isSome then .error .fileExists
    else .ok (t.put (place ++ [word]) .directory)

/-- What comes of making a directory that could not be made: nothing is wrong if it is there. -/
def forgive (t : FileTree) (words : List String) (error : FileError) : Except FileError Unit :=
  if error = .fileExists && (t.directoryAt words).toOption.isSome then .ok () else .error error

/-- Makes the first of some directories, each of which lies in the next one. Those that it lies in
are made only if they are missing. -/
def makeDirectories (t : FileTree) : List (List String) → Except FileError Unit × FileTree
  | [] => (.ok (), t)
  | words :: above =>
    match t.addDirectory words with
    | .ok t => (.ok (), t)
    | .error .notFound =>
      match t.makeDirectories above with
      | (.error e, t) => (.error e, t)
      | (.ok (), t) =>
        match t.addDirectory words with
        | .ok t => (.ok (), t)
        | .error e => (t.forgive words e, t)
    | .error e => (t.forgive words e, t)

/-- The directories on the way to a place, that place first and without the root. -/
def way (words : List String) : List (List String) :=
  (List.range words.length).map fun n => words.take (words.length - n)

/-- The text of the file at a path. -/
def read (t : FileTree) (path : Path) : Except FileError String := do
  let path ← checked path
  let words := words path ++ if asksDirectory path then ["."] else []
  match t.entry? (← t.follow [] words) with
  | some (.file text) => .ok text
  | some .directory => .error .isADirectory
  | none => .error .notFound

/-- A tree with a file at a path, in a directory that is there. -/
def create (t : FileTree) (path : Path) (text : String) : Except FileError FileTree := do
  match (words path).getLast? with
  | none => .error .isADirectory
  | some word =>
    let place ← t.directoryAt (words path).dropLast
    if isDots word || asksDirectory path then .error .isADirectory
    else if isTooLong word then .error .nameTooLong
    else if t.entry? (place ++ [word]) = some .directory then .error .isADirectory
    else .ok (t.put (place ++ [word]) (.file text))

/-- A tree with a file at a path, and with the directories above its last name. -/
def write (t : FileTree) (path : Path) (text : String) : Except FileError Unit × FileTree :=
  match checked path with
  | .error e => (.error e, t)
  | .ok path =>
    match t.makeDirectories (way (path.components.drop 1).dropLast) with
    | (.error e, t) => (.error e, t)
    | (.ok (), t) =>
      match t.create path text with
      | .ok t => (.ok (), t)
      | .error e => (.error e, t)

instance : FileSystem FileTree where
  read := FileTree.read
  write := FileTree.write

end FileTree

end DeclLayer
