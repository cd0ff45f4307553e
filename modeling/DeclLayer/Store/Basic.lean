import DeclLayer.Store.Path

/-!
# Stores

A store holds the texts of files. Reading a missing file is no failure. A store is a pure value:
reading leaves it as it is, and writing answers the store afterwards, whether it succeeds or not.
-/

namespace DeclLayer

/-- The values of `σ` hold files. Failures are given by their wording. -/
class Store (σ : Type) where
  /-- The text of a file, or nothing if there is no such file. -/
  read : σ → Path → Except String (Option String)
  /-- Puts a text under a path. -/
  write : σ → Path → String → Except String Unit × σ

/-- Files in memory, in the order in which they were first written. -/
structure MemoryStore where
  files : List (Path × String)
  deriving DecidableEq, Repr

namespace MemoryStore

/-- No files. -/
def empty : MemoryStore := ⟨[]⟩

/-- The text of a file. -/
def get? (s : MemoryStore) (path : Path) : Option String :=
  (s.files.find? fun entry => entry.1.same path).map Prod.snd

/-- Replaces the text of a file, or adds the file at the end. -/
def put (path : Path) (text : String) : List (Path × String) → List (Path × String)
  | [] => [(path, text)]
  | (p, t) :: files =>
    if p.same path then (p, text) :: files else (p, t) :: put path text files

/-- Writes a file. -/
def insert (s : MemoryStore) (path : Path) (text : String) : MemoryStore :=
  ⟨put path text s.files⟩

/-- The store of some files, of which later ones replace earlier ones. -/
def ofList (files : List (Path × String)) : MemoryStore :=
  files.foldl (fun s file => s.insert file.1 file.2) empty

instance : Store MemoryStore where
  read s path := .ok (s.get? path)
  write s path text := (.ok (), s.insert path text)

end MemoryStore

/-- A store that refuses to read or write some paths. -/
structure RestrictedStore (σ : Type) where
  inner : σ
  unreadable : List Path
  unwritable : List Path

instance {σ : Type} [Store σ] : Store (RestrictedStore σ) where
  read s path :=
    if s.unreadable.any path.same then .error "read refused" else Store.read s.inner path
  write s path text :=
    if s.unwritable.any path.same then (.error "write refused", s)
    else
      let (result, inner) := Store.write s.inner path text
      (result, { s with inner := inner })

end DeclLayer
