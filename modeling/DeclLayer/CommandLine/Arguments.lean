import DeclLayer.Store.Path

/-!
# Arguments

The arguments of the program are read from left to right: options that stand before the command,
the command, and the options of the command. The first argument that cannot be read ends the
reading, and so does the first one that asks for help or for the version.

An option is written `--name value` or `--name=value`, or with one letter `-n value`, `-nvalue` or
`-n=value`; the letters of options without a value may be run together. A value cannot begin with a
dash, unless it is a dash alone.
-/

namespace DeclLayer

/-- The options. -/
inductive Opt where
  | debug
  | help
  | version
  | config
  | source
  | out
  | check
  deriving DecidableEq, Repr

namespace Opt

/-- The name of an option. -/
def name : Opt → String
  | .debug => "debug"
  | .help => "help"
  | .version => "version"
  | .config => "config"
  | .source => "source"
  | .out => "out"
  | .check => "check"

/-- The letter of an option. -/
def letter? : Opt → Option Char
  | .debug => some 'd'
  | .help => some 'h'
  | .version => some 'V'
  | .config => some 'c'
  | .out => some 'o'
  | .source | .check => none

/-- Whether an option has a value. -/
def hasValue : Opt → Bool
  | .config | .source | .out => true
  | .debug | .help | .version | .check => false

end Opt

/-- The commands of the program. -/
inductive Command where
  | generate
  | printConfig
  deriving DecidableEq, Repr

namespace Command

/-- The name of a command. -/
def name : Command → String
  | .generate => "generate"
  | .printConfig => "print-config"

/-- The command with a name. -/
def ofName? (name : String) : Option Command :=
  [Command.generate, .printConfig].find? (·.name == name)

/-- The options of a command. -/
def options : Command → List Opt
  | .generate => [.config, .source, .out, .check, .debug, .help]
  | .printConfig => [.config, .debug, .help]

end Command

/-- Why arguments cannot be read. -/
inductive UsageError where
  | unknownArgument (text : String)
  | unknownCommand (name : String)
  | missingCommand
  | missingValue (option : Opt)
  | emptyValue (option : Opt)
  /-- A value for an option that has none. -/
  | unexpectedValue (option : Opt)
  | repeated (option : Opt)
  deriving DecidableEq, Repr

/-- The wording of an error. -/
def UsageError.message : UsageError → String
  | .unknownArgument text => "unexpected argument '" ++ text ++ "' found"
  | .unknownCommand name => "unrecognized subcommand '" ++ name ++ "'"
  | .missingCommand => "a subcommand is required but one was not provided"
  | .missingValue option =>
    "a value is required for '--" ++ option.name ++ "' but none was supplied"
  | .emptyValue option => "the value of '--" ++ option.name ++ "' is empty"
  | .unexpectedValue option => "unexpected value for '--" ++ option.name ++ "'"
  | .repeated option => "the argument '--" ++ option.name ++ "' cannot be used multiple times"

/-- What help can be about. -/
inductive HelpTopic where
  | program
  | command (command : Command)
  /-- The help itself. -/
  | help
  deriving DecidableEq, Repr

/-- The topic with a name. -/
def HelpTopic.ofName? (name : String) : Option HelpTopic :=
  if name = "help" then some .help else (Command.ofName? name).map .command

/-- Why the reading of arguments ends early. -/
inductive Stop where
  | help (topic : HelpTopic)
  | version
  | usage (error : UsageError)
  deriving DecidableEq, Repr

/-- What the arguments ask for. -/
structure Invocation where
  command : Command
  debug : Bool
  /-- The file with the settings. -/
  config : Option Path
  /-- The declaration file, in place of the one in the settings. -/
  source : Option Path
  /-- The output file, in place of the one in the settings. -/
  out : Option Path
  check : Bool
  deriving DecidableEq, Repr

/-- The forms of an argument. -/
inductive Argument where
  /-- No option. -/
  | plain
  /-- Two dashes alone, after which no options follow. -/
  | divider
  | long (name : String) (value : Option String)
  | short (letters : List Char)
  deriving DecidableEq, Repr

/-- The form of an argument. -/
def Argument.ofText (text : String) : Argument :=
  match text.toList with
  | ['-', '-'] => .divider
  | '-' :: '-' :: cs =>
    .long (String.ofList (cs.takeWhile (· != '=')))
      (match cs.dropWhile (· != '=') with
        | [] => none
        | _ :: value => some (String.ofList value))
  | '-' :: c :: cs => .short (c :: cs)
  | _ => .plain

/-- Options with their values, in the order in which they were given. -/
abbrev Options := List (Opt × String)

namespace Options

/-- Adds an option. -/
def add (seen : Options) (option : Opt) (value : String) : Except Stop Options :=
  if (seen.lookup option).isSome then .error (.usage (.repeated option))
  else if option.hasValue && value.isEmpty then .error (.usage (.emptyValue option))
  else .ok (seen ++ [(option, value)])

/-- Adds an option that has no value. `topic` is what help is about. -/
def addFlag (topic : HelpTopic) (seen : Options) (option : Opt) : Except Stop Options :=
  match option with
  | .help => .error (.help topic)
  | .version => .error .version
  | option => seen.add option ""

/-- Reads letters, and answers the last option if its value has to follow. -/
def readLetters (topic : HelpTopic) (allowed : List Opt) (seen : Options) :
    List Char → Except Stop (Options × Option Opt)
  | [] => .ok (seen, none)
  | c :: cs => do
    match allowed.find? (·.letter? == some c) with
    | none => .error (.usage (.unknownArgument (String.ofList ['-', c])))
    | some option =>
      if option.hasValue then
        match cs with
        | [] => return (seen, some option)
        | '=' :: value => return (← seen.add option (String.ofList value), none)
        | value => return (← seen.add option (String.ofList value), none)
      else readLetters topic allowed (← seen.addFlag topic option) cs

/-- Reads a named option, and answers it if its value has to follow. -/
def readNamed (topic : HelpTopic) (allowed : List Opt) (seen : Options) (name : String)
    (value : Option String) : Except Stop (Options × Option Opt) := do
  match allowed.find? (·.name == name), value with
  | none, _ => .error (.usage (.unknownArgument ("--" ++ name)))
  | some option, some value =>
    if option.hasValue then return (← seen.add option value, none)
    else .error (.usage (.unexpectedValue option))
  | some option, none =>
    if option.hasValue then return (seen, some option)
    else return (← seen.addFlag topic option, none)

/-- Reads options up to the first argument that is none, and answers the arguments from there on.
`pending` is an option whose value has to follow. -/
def read (topic : HelpTopic) (allowed : List Opt) :
    Option Opt → Options → List String → Except Stop (Options × List String)
  | none, seen, [] => .ok (seen, [])
  | some option, _, [] => .error (.usage (.missingValue option))
  | pending, seen, text :: rest => do
    match pending, Argument.ofText text with
    | some option, .plain => read topic allowed none (← seen.add option text) rest
    | some option, _ => .error (.usage (.missingValue option))
    | none, .plain => return (seen, text :: rest)
    | none, .divider =>
      match rest with
      | [] => return (seen, [])
      | extra :: _ => .error (.usage (.unknownArgument extra))
    | none, .long name value =>
      let (seen, pending) ← readNamed topic allowed seen name value
      read topic allowed pending seen rest
    | none, .short letters =>
      let (seen, pending) ← readLetters topic allowed seen letters
      read topic allowed pending seen rest

/-- The path that an option names. -/
def path? (seen : Options) (option : Opt) : Option Path :=
  (seen.lookup option).map Path.mk

/-- Whether an option was given. -/
def has (seen : Options) (option : Opt) : Bool :=
  (seen.lookup option).isSome

end Options

namespace Invocation

/-- What help is asked for by the arguments after the word for it: at most one topic. -/
def helpTopic : List String → Stop
  | [] => .help .program
  | name :: names =>
    match HelpTopic.ofName? name, names with
    | some topic, [] => .help topic
    | some _, extra :: _ => .usage (.unknownCommand extra)
    | none, _ => .usage (.unknownCommand name)

/-- Reads the arguments of a command. -/
def ofOptions (command : Command) (debug : Bool) (args : List String) : Except Stop Invocation := do
  let (seen, rest) ← Options.read (.command command) command.options none [] args
  match rest with
  | extra :: _ => .error (.usage (.unknownArgument extra))
  | [] =>
    return {
      command := command
      debug := debug || seen.has .debug
      config := seen.path? .config
      source := seen.path? .source
      out := seen.path? .out
      check := seen.has .check }

/-- Reads arguments. -/
def parse (args : List String) : Except Stop Invocation := do
  let (seen, rest) ← Options.read .program [.debug, .help, .version] none [] args
  match rest with
  | [] => .error (.usage .missingCommand)
  | "help" :: topics => .error (helpTopic topics)
  | name :: args =>
    match Command.ofName? name with
    | some command => ofOptions command (seen.has .debug) args
    | none => .error (.usage (.unknownCommand name))

end Invocation

end DeclLayer
