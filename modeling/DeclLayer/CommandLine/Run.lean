import DeclLayer.CommandLine.Arguments
import DeclLayer.Layer.Generate
import DeclLayer.Layer.SettingsFile
import DeclLayer.Parse.Report
import DeclLayer.Store.FileSystem

/-!
# Running the program

A run takes the arguments, the working directory and a file system, and gives an exit code, what is
printed, and the file system afterwards. Paths in the settings are taken from the directory of the
file that they stand in, paths in the arguments from the working directory.
-/

namespace DeclLayer

/-- What a run shows. -/
structure Outcome where
  code : Nat
  stdout : String
  stderr : String
  deriving DecidableEq, Repr

/-- Why a command fails. -/
inductive RunError where
  | unreadableConfig (path : Path) (error : FileError)
  | invalidConfig (path : Path)
  | layer (error : LayerError)
  deriving DecidableEq, Repr

/-- What a failure prints. An error that was caused by another one is followed by that one's
wording; a syntax error is shown with its line. -/
def RunError.text : RunError → String
  | .unreadableConfig path error =>
    "error: failed to read config file `" ++ path.text ++ "`: " ++ error.text ++ ": " ++
      error.text ++ "\n"
  | .invalidConfig path => "error: invalid config file `" ++ path.text ++ "`\n"
  | .layer (.syntaxError path text error) =>
    error.report path text ++ "error: failed to parse `" ++ path.text ++ "`\n"
  | .layer error =>
    "error: " ++ error.message ++ ((error.reason?.map (": " ++ ·)).getD "") ++ "\n"

namespace Invocation

/-- The name of the file with the settings, if the arguments name none. -/
def standardConfig : Path := ⟨"apilayer.toml"⟩

section

variable {φ : Type} [FileSystem φ]

/-- The file with the settings: the one in the arguments, or the standard one if there is such a
file in the working directory. -/
def configFile? (i : Invocation) (directory : Path) (files : φ) : Option Path :=
  match i.config with
  | some path => some path
  | none =>
    let path := directory.join standardConfig
    if FileSystem.hasFile files path then some path else none

/-- The settings in a file. -/
def readSettings (directory path : Path) (files : φ) : Except RunError Settings :=
  match FileSystem.read files (directory.join path) with
  | .error e => .error (.unreadableConfig path e)
  | .ok text =>
    match Settings.parse? text with
    | some settings => .ok settings
    | none => .error (.invalidConfig path)

/-- The settings of a run, with the directory that its paths are taken from. -/
def settings (i : Invocation) (directory : Path) (files : φ) : Except RunError (Settings × Path) :=
  match i.configFile? directory files with
  | none => .ok (Settings.standard, directory)
  | some path => do
    let settings ← readSettings directory path files
    return (settings, (path.parent?.map directory.join).getD directory)

/-- Settings with the files that the arguments name. -/
def override (i : Invocation) (directory : Path) (s : Settings) : Settings :=
  { s with
    declarationFile := (i.source.map directory.join).getD s.declarationFile
    output := (i.out.map directory.join).getD s.output }

/-- The warning about references that cannot be reached. -/
def warning (references : List UnresolvedReference) : String :=
  if references.isEmpty then ""
  else "warning: " ++ toString references.length ++ " unresolved cross-tier reference(s); set " ++
    "`strict_references` to make this an error\n"

/-- What is shown of a layer that was compared with the file. -/
def checked (o : Output) : Outcome :=
  if o.isUpToDate then ⟨0, o.path.text ++ " is up to date\n", warning o.unresolved⟩
  else ⟨1, "", warning o.unresolved ++ o.path.text ++
    " is out of date; run `apilayer generate` to update it\n"⟩

/-- What is shown of a layer that was written. -/
def written (o : Output) : Outcome :=
  ⟨0,
    if o.isUpToDate then o.path.text ++ " is up to date\n"
    else "Generated " ++ o.path.text ++ "\n",
    warning o.unresolved⟩

/-- Generates the layer, or compares it with the file. -/
def generate (i : Invocation) (directory : Path) (files : φ) : Except RunError Outcome × φ :=
  match i.settings directory files with
  | .error e => (.error e, files)
  | .ok (settings, root) =>
    let settings := i.override directory settings
    let store : Rooted φ := ⟨root, files⟩
    if i.check then
      (((Layer.build settings store).map checked).mapError RunError.layer, files)
    else
      let (result, store) := Layer.generate settings store
      ((result.map written).mapError RunError.layer, store.files)

/-- Prints the settings in full. -/
def printConfig (i : Invocation) (directory : Path) (files : φ) : Except RunError Outcome := do
  let (settings, _) ← i.settings directory files
  return ⟨0, settings.toToml, ""⟩

/-- Carries out a command. -/
def perform (i : Invocation) (directory : Path) (files : φ) : Except RunError Outcome × φ :=
  match i.command with
  | .generate => i.generate directory files
  | .printConfig => (i.printConfig directory files, files)

end

end Invocation

/-- The name of the program. -/
def programName : String := "apilayer"

/-- The version of the program. -/
def programVersion : String := "0.1.0"

/-- The lines of help about a topic. -/
def helpLines : HelpTopic → List String
  | .program =>
    ["Generates a consolidated, branded API layer from a compiler declaration file", "",
      "Usage: apilayer [OPTIONS] <COMMAND>", "", "Commands:",
      "  generate      Generate the API layer file",
      "  print-config  Print the effective configuration as TOML",
      "  help          Print this message or the help of the given subcommand(s)", "", "Options:",
      "  -d, --debug    Enable debug logging (overrides APILAYER_LOG)",
      "  -h, --help     Print help", "  -V, --version  Print version"]
  | .command .generate =>
    ["Generate the API layer file", "", "Usage: apilayer generate [OPTIONS]", "", "Options:",
      "  -c, --config <CONFIG>  Config file " ++
        "(default: apilayer.toml in the current directory, if present)",
      "  -d, --debug            Enable debug logging (overrides APILAYER_LOG)",
      "      --source <SOURCE>  Declaration file to read (overrides the config)",
      "  -o, --out <OUT>        File to write (overrides the config)",
      "      --check            Fail if the file on disk is out of date instead of writing it",
      "  -h, --help             Print help"]
  | .command .printConfig =>
    ["Print the effective configuration as TOML", "", "Usage: apilayer print-config [OPTIONS]", "",
      "Options:",
      "  -c, --config <CONFIG>  Config file " ++
        "(default: apilayer.toml in the current directory, if present)",
      "  -d, --debug            Enable debug logging (overrides APILAYER_LOG)",
      "  -h, --help             Print help"]
  | .help =>
    ["Print this message or the help of the given subcommand(s)", "",
      "Usage: apilayer help [COMMAND]...", "", "Arguments:",
      "  [COMMAND]...  Print help for the subcommand(s)"]

/-- What is shown if the reading of arguments ended early. -/
def Stop.outcome : Stop → Outcome
  | .help topic => ⟨0, String.join ((helpLines topic).map (· ++ "\n")), ""⟩
  | .version => ⟨0, programName ++ " " ++ programVersion ++ "\n", ""⟩
  | .usage error => ⟨2, "", "error: " ++ error.message ++ "\n"⟩

/-- A failure shows its text, and ends the program with code 1. -/
def Outcome.ofResult : Except RunError Outcome → Outcome
  | .ok outcome => outcome
  | .error e => ⟨1, "", e.text⟩

/-- Runs the program. -/
def runProgram {φ : Type} [FileSystem φ] (directory : Path) (args : List String) (files : φ) :
    Outcome × φ :=
  match Invocation.parse args with
  | .error stop => (stop.outcome, files)
  | .ok invocation =>
    let (result, files) := invocation.perform directory files
    (Outcome.ofResult result, files)

end DeclLayer
