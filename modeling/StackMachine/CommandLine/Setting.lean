import StackMachine.Text.Numeral

/-!
# What the command line can set

The program is asked for a subcommand, which is followed by options and by at
most one plain argument, the path of an image.  An option has a long name, may
have a letter, and may take a value.

## Main definitions

* `CommandLine.Subcommand` — what the program is asked to do
* `CommandLine.Setting` — an option
* `CommandLine.Settings` — what options have set
* `CommandLine.UsageError` — why arguments are refused
* `CommandLine.Settings.apply` — the settings with one more option

## Design notes

**An option counts once,** except presets, which add up.  An option that is
given again is refused before its value is looked at.
-/

namespace StackMachine.CommandLine

/-- What the program is asked to do. -/
inductive Subcommand where
  /-- Load an image and run it. -/
  | run
  /-- List an image. -/
  | disassemble
  /-- Show a call and its return. -/
  | demo
deriving DecidableEq, Repr

/-- An option. -/
inductive Setting where
  /-- The address at which the image is loaded. -/
  | origin
  /-- The largest number of steps. -/
  | maxSteps
  /-- Whether every step is shown. -/
  | trace
  /-- The path of a configuration. -/
  | config
  /-- The size of the memory. -/
  | memorySize
  /-- Whether bytes that are no opcode are skipped. -/
  | permissive
  /-- A register and its value. -/
  | preset
  /-- Whether a snapshot is shown at the end. -/
  | json
  /-- A request for help. -/
  | help
deriving DecidableEq, Repr

namespace Subcommand

/-- Every subcommand. -/
def all : List Subcommand := [run, disassemble, demo]

/-- The word by which a subcommand is asked for. -/
def word : Subcommand → String
  | run => "run"
  | disassemble => "disasm"
  | demo => "demo"

/-- Whether the subcommand works on an image. -/
def takesImage : Subcommand → Bool
  | run | disassemble => true
  | demo => false

/-- The options of a subcommand. -/
def settings : Subcommand → List Setting
  | run =>
    [.origin, .maxSteps, .trace, .config, .memorySize, .permissive,
      .preset, .json, .help]
  | disassemble => [.origin, .help]
  | demo => [.help]

end Subcommand

namespace Setting

/-- The name of an option behind two hyphens. -/
def long : Setting → String
  | origin => "origin"
  | maxSteps => "max-steps"
  | trace => "trace"
  | config => "config"
  | memorySize => "memory-size"
  | permissive => "permissive"
  | preset => "reg"
  | json => "json"
  | help => "help"

/-- The letter of an option behind one hyphen, if it has one. -/
def letter? : Setting → Option Char
  | origin => some 'o'
  | maxSteps => some 'm'
  | trace => some 't'
  | config => some 'c'
  | help => some 'h'
  | memorySize | permissive | preset | json => none

/-- Whether an option takes a value. -/
def takesValue : Setting → Bool
  | origin | maxSteps | config | memorySize | preset => true
  | trace | permissive | json | help => false

/-- Whether an option may be given more than once. -/
def repeats : Setting → Bool
  | preset => true
  | _ => false

end Setting

/-- Why arguments are refused. -/
inductive UsageError where
  /-- The first argument asks for nothing that there is. -/
  | unknownSubcommand (text : String)
  /-- There is no such option. -/
  | unknownOption (text : String)
  /-- A plain argument has no place. -/
  | unexpectedArgument (text : String)
  /-- An option that takes no value has one. -/
  | unexpectedValue (setting : Setting)
  /-- An option that takes a value has none. -/
  | missingValue (setting : Setting)
  /-- An option is given again. -/
  | repeated (setting : Setting)
  /-- The value of an option is no word. -/
  | invalidWord (setting : Setting) (fault : Numeral.WordFault)
  /-- The value of an option is no number, or too large a one. -/
  | invalidNumber (setting : Setting) (text : String) (fault : Numeral.Fault)
  /-- There is no path of an image. -/
  | missingImage
deriving DecidableEq, Repr

/-- What options have set. -/
structure Settings where
  /-- The options given so far. -/
  given : List Setting := []
  /-- The address at which the image is loaded. -/
  origin : UInt16 := 0
  /-- The largest number of steps. -/
  maxSteps : Nat := 10000
  /-- Whether every step is shown. -/
  trace : Bool := false
  /-- The path of a configuration. -/
  config : Option String := none
  /-- The size of the memory, in place of the configured one. -/
  memorySize : Option Nat := none
  /-- Whether bytes that are no opcode are skipped, whatever is configured. -/
  permissive : Bool := false
  /-- Registers and their values, in the order in which they are given. -/
  presets : List String := []
  /-- Whether a snapshot is shown at the end. -/
  json : Bool := false
deriving DecidableEq, Repr

namespace Settings

/-- The settings with the value of an option, whose text is empty
where it takes none. -/
def put (s : Settings) (setting : Setting) (text : String) :
    Except UsageError Settings :=
  match setting with
  | .origin =>
    match Numeral.readWord text with
    | .ok word => .ok { s with origin := word }
    | .error fault => .error (.invalidWord .origin fault)
  | .maxSteps =>
    match Numeral.read 10 0xffffffffffffffff text.toList with
    | .ok n => .ok { s with maxSteps := n }
    | .error fault => .error (.invalidNumber .maxSteps text fault)
  | .memorySize =>
    match Numeral.read 10 0xffffffffffffffff text.toList with
    | .ok n => .ok { s with memorySize := some n }
    | .error fault => .error (.invalidNumber .memorySize text fault)
  | .config => .ok { s with config := some text }
  | .preset => .ok { s with presets := s.presets ++ [text] }
  | .trace => .ok { s with trace := true }
  | .permissive => .ok { s with permissive := true }
  | .json => .ok { s with json := true }
  | .help => .ok s

/-- The settings with one more option. -/
def apply (s : Settings) (setting : Setting) (text : String) :
    Except UsageError Settings :=
  if setting ∈ s.given ∧ !setting.repeats then .error (.repeated setting)
  else ({ s with given := setting :: s.given } : Settings).put setting text

end Settings

/-- The wording of a refusal. -/
def UsageError.message : UsageError → String
  | unknownSubcommand text => "unrecognized subcommand " ++ Quoted.quote text
  | unknownOption text => "unexpected option " ++ Quoted.quote text
  | unexpectedArgument text => "unexpected argument " ++ Quoted.quote text
  | unexpectedValue setting => "option --" ++ setting.long ++ " takes no value"
  | missingValue setting => "option --" ++ setting.long ++ " needs a value"
  | repeated setting => "option --" ++ setting.long ++ " is given more than once"
  | invalidWord setting fault =>
    "option --" ++ setting.long ++ ": " ++ fault.message
  | invalidNumber setting text fault =>
    "option --" ++ setting.long ++ ": invalid number " ++
      Quoted.quote text ++ ": " ++
      fault.message
  | missingImage => "the path of an image is missing"

end StackMachine.CommandLine
