import StackMachine.CommandLine.Setting

/-!
# Reading arguments

Arguments are read from the left.  A value follows its option in the same
argument or as the next one.

## Main definitions

* `CommandLine.Command` — what the arguments ask for
* `CommandLine.Progress` — what has been read so far
* `CommandLine.Progress.argument` — what one argument does
* `CommandLine.Progress.finish` — the command, once all are read
* `CommandLine.parse` — the command that the arguments of the program give

## Design notes

**A value in an argument of its own is put off.**  It is held until the next
option or the end makes clear that nothing more belongs to it.  So of an
unsuitable value and an unknown option right behind it, the unknown option is
reported.

**Behind two hyphens** every argument is plain, and none is the value of an
option.
-/

namespace StackMachine.CommandLine

/-- What the arguments ask for. -/
inductive Command where
  /-- Nothing in particular. -/
  | banner
  /-- The version of the program. -/
  | version
  /-- How the program is used. -/
  | help
  /-- Run an image. -/
  | run (image : String) (settings : Settings)
  /-- List an image as if it stood at an address. -/
  | disassemble (image : String) (origin : UInt16)
  /-- Show a call and its return. -/
  | demo
deriving DecidableEq, Repr

/-- Why the reading of arguments ends early. -/
inductive Stop where
  /-- Help is asked for. -/
  | help
  /-- The arguments are refused. -/
  | refused (cause : UsageError)
deriving DecidableEq, Repr

/-- What has been read so far of the arguments of a subcommand. -/
structure Progress where
  /-- What the options that count have set. -/
  settings : Settings := {}
  /-- The path of the image. -/
  image : Option String := none
  /-- The last option, if its value is still to come or was an
  argument of its own. -/
  pending : Option (Setting × Option String) := none
  /-- Whether two hyphens have been read. -/
  plainOnly : Bool := false
deriving DecidableEq, Repr

namespace Progress

/-- The option counts, with its value. -/
def commit (p : Progress) (setting : Setting) (text : String) :
    Except Stop Progress :=
  match p.settings.apply setting text with
  | .error cause => .error (.refused cause)
  | .ok settings => if setting = .help then .error .help
      else .ok { p with settings }

/-- The option that was put off counts. -/
def settle (p : Progress) : Except Stop Progress :=
  match p.pending with
  | none => .ok p
  | some (setting, none) => .error (.refused (.missingValue setting))
  | some (setting, some text) =>
    ({ p with pending := none } : Progress).commit setting text

/-- A plain argument that is no value: the path of the image. -/
def plain (sub : Subcommand) (p : Progress) (text : String) :
    Except Stop Progress :=
  if sub.takesImage ∧ p.image.isNone then do
    let p ← p.settle
    return { p with image := some text }
  else .error (.refused (.unexpectedArgument text))

/-- An argument that is no option: the value that an option waits for, or
a plain argument. -/
def value (sub : Subcommand) (p : Progress) (text : String) :
    Except Stop Progress :=
  match p.pending with
  | some (setting, none) => .ok { p with pending := some (setting, some text) }
  | _ => p.plain sub text

/-- An option by its long name, with what stands behind an equals sign. -/
def longOption (sub : Subcommand) (p : Progress) (name : String)
    (value : Option String) :
    Except Stop Progress :=
  match sub.settings.find? (·.long = name) with
  | none => .error (.refused (.unknownOption ("--" ++ name)))
  | some setting =>
    if setting.takesValue then do
      let p ← p.settle
      match value with
      | some text => p.commit setting text
      | none => return { p with pending := some (setting, none) }
    else
      match value with
      | some _ => .error (.refused (.unexpectedValue setting))
      | none => do
        let p ← p.settle
        p.commit setting ""

/-- Options by their letters.  The first that takes a value takes what
stands behind it, without an equals sign in front; if nothing does, its
value is still to come. -/
def letters (sub : Subcommand) : List Char → Progress → Except Stop Progress
  | [], p => .ok p
  | c :: rest, p =>
    match sub.settings.find? (·.letter? = some c) with
    | none => .error (.refused (.unknownOption (String.ofList ['-', c])))
    | some setting => do
      let p ← p.settle
      if setting.takesValue then
        match rest with
        | [] => return { p with pending := some (setting, none) }
        | '=' :: text => p.commit setting (String.ofList text)
        | text => p.commit setting (String.ofList text)
      else letters sub rest (← p.commit setting "")

/-- What one argument does. -/
def argument (sub : Subcommand) (p : Progress) (text : String) :
    Except Stop Progress :=
  if p.plainOnly then p.plain sub text
  else
    match text.toList with
    | ['-', '-'] => .ok { p with plainOnly := true }
    | '-' :: '-' :: long =>
      match long.dropWhile (· ≠ '=') with
      | '=' :: text =>
        p.longOption sub (String.ofList (long.takeWhile (· ≠ '=')))
          (some (String.ofList text))
      | _ => p.longOption sub (String.ofList long) none
    | '-' :: c :: rest => letters sub (c :: rest) p
    | _ => p.value sub text

/-- The command that the arguments of a subcommand give, once all are read. -/
def finish (sub : Subcommand) (p : Progress) : Except Stop Command := do
  let p ← p.settle
  match sub, p.image with
  | .demo, _ => return .demo
  | .run, some image => return .run image p.settings
  | .disassemble, some image => return .disassemble image p.settings.origin
  | _, none => throw (.refused .missingImage)

end Progress

/-- The command that a subcommand gives with its arguments. -/
def parseSubcommand (sub : Subcommand) (arguments : List String) :
    Except UsageError Command :=
  match arguments.foldlM (Progress.argument sub) {} >>= Progress.finish sub with
  | .ok command => .ok command
  | .error .help => .ok .help
  | .error (.refused cause) => .error cause

/-- The command that the arguments of the program give. -/
def parse : List String → Except UsageError Command
  | [] => .ok .banner
  | ["--"] => .ok .banner
  | "--" :: text :: _ => .error (.unexpectedArgument text)
  | "--version" :: _ => .ok .version
  | "--help" :: _ => .ok .help
  | ["help"] => .ok .help
  | "help" :: topic :: rest =>
    if rest.isEmpty ∧ topic ∈ "help" :: Subcommand.all.map Subcommand.word then
      .ok .help
    else .error (.unknownSubcommand topic)
  | first :: rest =>
    match first.toList with
    | '-' :: 'V' :: _ => .ok .version
    | '-' :: 'h' :: _ => .ok .help
    | '-' :: _ :: _ => .error (.unknownOption first)
    | _ =>
      match Subcommand.all.find? (·.word = first) with
      | some sub => parseSubcommand sub rest
      | none => .error (.unknownSubcommand first)

end StackMachine.CommandLine
