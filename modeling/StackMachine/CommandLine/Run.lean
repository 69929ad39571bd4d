import StackMachine.CommandLine.Outcome
import StackMachine.CommandLine.Preset
import StackMachine.CommandLine.Setting
import StackMachine.Encoding
import StackMachine.Machine.Run

/-!
# Running an image

The command `run` builds a machine, loads an image, runs it and shows what has
become of the machine.

## Main definitions

* `CommandLine.StartError` — why no run begins
* `CommandLine.configure` — the configuration of the machine
* `CommandLine.prepare` — the machine before its first step
* `CommandLine.runImage` — the command

## Design notes

**Of several reasons the first counts:** the image is read, then the
configuration, then the machine is built, loaded and preset.

**The rows of the trace carry the whole run.**  The steps are counted by them,
and the run has failed exactly if the last of them did.
-/

namespace StackMachine.CommandLine

/-- Why no run begins. -/
inductive StartError where
  /-- The image cannot be read. -/
  | image (cause : FileError)
  /-- The image has no bytes. -/
  | emptyImage
  /-- The file of the configuration cannot be read. -/
  | configFile (cause : FileError)
  /-- The configuration is refused, or the machine cannot be built as configured. -/
  | config (cause : ConfigError)
  /-- The image does not fit. -/
  | load (cause : OutOfBounds)
  /-- A preset is bad. -/
  | preset (cause : PresetError)
deriving DecidableEq, Repr

/-- The wording of a run that does not begin. -/
def StartError.message : StartError → String
  | image cause => "Failed to read file: " ++ cause.message
  | emptyImage => "No instructions to execute"
  | configFile cause => "Failed to read config: " ++ cause.message
  | config cause => cause.message
  | load cause => "Failed to load program: " ++ cause.message
  | preset cause => cause.message

/-- A file as text. -/
def readText (files : Files) (path : String) : Except FileError String :=
  match files path with
  | .error e => .error e
  | .ok bytes =>
    match String.fromUTF8? bytes with
    | some text => .ok text
    | none => .error (.other "stream did not contain valid UTF-8")

/-- The configuration in the file that is named, or else the default one, with
what the settings change in it. -/
def configure (files : Files) (s : Settings) : Except StartError Config := do
  let base ←
    match s.config with
    | none => pure Config.default
    | some path =>
      let text ← (readText files path).mapError .configFile
      (Config.ofText text).mapError .config
  return {
    memorySize := s.memorySize.getD base.memorySize
    opcodePolicy := if s.permissive then .permissive else base.opcodePolicy }

/-- The machine before its first step, and how many bytes were loaded. -/
def prepare (files : Files) (path : String) (s : Settings) :
    Except StartError (Machine × Nat) := do
  let image ← (files path).mapError .image
  if image.isEmpty then throw .emptyImage
  let config ← configure files s
  let m ← (Machine.create config).mapError .config
  match (Machine.loadProgram (.ofBytes s.origin image.data)).run m with
  | .error cause _ => throw (.load cause)
  | .ok () m =>
    match (applyPresets s.presets).run (m.setRegister .ip s.origin) with
    | .error cause _ => throw (.preset cause)
    | .ok () m => return (m, image.size)

/-- The text of what stood where a step began. -/
def itemText (row : TraceRow) : String :=
  match row.item with
  | .ok (text, _) => text
  | .error _ => "??"

/-- The line for a step that succeeded. -/
def traceLine (row : TraceRow) (done : Step) : String :=
  let note :=
    match done with
    | .executed _ => ""
    | .skipped _ => "  (skipped)"
  Hex.word row.ip ++ ": " ++ Listing.column (itemText row) ++
    " ACC=" ++ Hex.word row.acc ++ " SP=" ++ Hex.word row.sp ++
    " FP=" ++ Hex.word row.fp ++ note ++ "\n"

/-- The lines for all steps that succeeded. -/
def traceLines (rows : List TraceRow) : String :=
  rows.foldl (fun text row =>
    match row.outcome with
    | .ok done => text ++ traceLine row done
    | .error _ => text) ""

/-- What is said about a step that failed. -/
def faultLine (ip : UInt16) (fault : Fault) : String :=
  "CPU error at IP=" ++ Hex.word ip ++ ": " ++ fault.message

/-- What is said about the stack. -/
def stackText (m : Machine) (label : String) (unavailable : String) : String :=
  match m.viewStack with
  | .ok text => label ++ text
  | .error e => unavailable ++ " (" ++ e.message ++ ")"

/-- What is shown of a machine that has run. -/
def resultText (s : Settings) (steps : Nat) (m : Machine) : String :=
  "\n━━━ Result ━━━\n" ++
    "Steps: " ++ toString steps ++ "\n" ++
    "State: " ++ m.state.name ++ "\n" ++
    m.registerDump ++ "\n" ++
    stackText m "Stack: " "Stack: unavailable" ++ "\n" ++
    (if s.json then m.snapshot.toJson.pretty ++ "\n" else "") ++
    (if s.maxSteps ≤ steps ∧ m.state = .running then
      "\n⚠️  Reached max steps limit (" ++ toString s.maxSteps ++
        "). Use --max-steps to increase.\n"
    else "")

/-- Load an image, run it and show what has become of the machine. -/
def runImage (files : Files) (path : String) (s : Settings) : Outcome :=
  let title := "🔧 Running: " ++ path ++ "\n"
  match prepare files path s with
  | .error e => .failure title e.message
  | .ok (m, size) =>
    let policy := m.policy
    let (rows, m) := Machine.trace s.maxSteps m
    let output :=
      title ++ "📂 Loaded " ++ toString size ++ " bytes at " ++
        Hex.word s.origin ++ "\n" ++
        "Opcode policy: " ++ policy.label ++ "\n\n━━━ Execution ━━━\n" ++
        (if s.trace then traceLines rows else "")
    match rows.getLast? with
    | some ⟨ip, _, .error fault, _, _, _, _⟩ => .failure output (faultLine ip fault)
    | _ => .success (output ++ resultText s rows.length m)

end StackMachine.CommandLine
