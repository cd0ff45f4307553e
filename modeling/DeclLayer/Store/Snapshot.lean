import DeclLayer.Store.FileSystem

/-!
# Snapshots

A file system that knows what reading a few paths gave, and keeps what is written to it. A program
looks at the files it needs, runs on the snapshot, and then carries out what was written.
-/

namespace DeclLayer

/-- What is known of the files of a system. -/
structure Snapshot where
  /-- What reading a path gave. -/
  known : List (Path × Except FileError String)
  /-- Paths that cannot be written to. -/
  refused : List (Path × FileError)
  /-- What was written, in order. -/
  written : List (Path × String)

namespace Snapshot

/-- Nothing is known. -/
def empty : Snapshot := ⟨[], [], []⟩

/-- Adds what reading a path gave. -/
def observe (s : Snapshot) (path : Path) (result : Except FileError String) : Snapshot :=
  { s with known := (path, result) :: s.known }

/-- Adds a path that cannot be written to. -/
def refuse (s : Snapshot) (path : Path) (error : FileError) : Snapshot :=
  { s with refused := (path, error) :: s.refused }

instance : FileSystem Snapshot where
  read s path := (s.known.lookup path).getD (.error .notFound)
  write s path text :=
    match s.refused.lookup path with
    | some e => (.error e, s)
    | none => (.ok (), { s.observe path (.ok text) with written := s.written ++ [(path, text)] })

end Snapshot

end DeclLayer
