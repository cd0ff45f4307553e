import DeclLayer.CommandLine.Run
import DeclLayer.Store.Snapshot

/-!
# The program

The program looks at the file with the settings and at the files that the settings name, runs on
what it saw, and carries out what the run wrote.
-/

namespace DeclLayer

/-- The failure that a system error stands for. Codes come with either sign. -/
def fileErrorOf : IO.Error → FileError
  | .noFileOrDirectory .. => .notFound
  | .alreadyExists .. => .fileExists
  | .inappropriateType _ code _ =>
    if code = 20 || 0 - code = 20 then .notADirectory else .isADirectory
  | error => .other (toString error)

/-- Looks at a path. -/
def look (s : Snapshot) (path : Path) : IO Snapshot := do
  match ← (IO.FS.readFile path.text).toBaseIO with
  | .ok text => return s.observe path (.ok text)
  | .error e => return s.observe path (.error (fileErrorOf e))

/-- Looks at what an invocation needs. -/
def lookFor (i : Invocation) (directory : Path) : IO Snapshot := do
  let s ← look .empty (directory.join (i.config.getD Invocation.standardConfig))
  match i.settings directory s with
  | .error _ => return s
  | .ok (settings, root) =>
    let settings := i.override directory settings
    look (← look s (root.join settings.declarationFile)) (root.join settings.output)

/-- Writes a file, with the directories that lead to it. -/
def writeFile (path : Path) (text : String) : IO Unit := do
  if let some directory := path.parent? then
    IO.FS.createDirAll directory.text
  IO.FS.writeFile path.text text

/-- Carries out what was written, and answers the first path that could not be written to. -/
def carryOut : List (Path × String) → IO (Option (Path × FileError))
  | [] => return none
  | (path, text) :: rest => do
    match ← (writeFile path text).toBaseIO with
    | .ok () => carryOut rest
    | .error e => return some (path, fileErrorOf e)

/-- The program on the files of the system. -/
def runOnSystem (args : List String) : IO Outcome := do
  let directory : Path := ⟨(← IO.currentDir).toString⟩
  let before ← match Invocation.parse args with
    | .error _ => pure Snapshot.empty
    | .ok i => lookFor i directory
  let (outcome, after) := runProgram directory args before
  match ← carryOut after.written with
  | none => return outcome
  | some (path, e) => return (runProgram directory args (before.refuse path e)).1

end DeclLayer

open DeclLayer in
/-- Runs the program and shows what it shows. -/
def main (args : List String) : IO UInt32 := do
  let outcome ← runOnSystem args
  (← IO.getStderr).putStr outcome.stderr
  (← IO.getStdout).putStr outcome.stdout
  return outcome.code.toUInt32
