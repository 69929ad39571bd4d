import StackMachine.CommandLine.Perform
import StackMachine.Proofs.AcceptedArguments
import StackMachine.Proofs.BoundedRun
import StackMachine.Proofs.Code
import StackMachine.Proofs.Presets
import StackMachine.Proofs.RunTrace

/-!
# The command that runs an image

The command `run` counts and shows its steps in a loop of its own.  It comes to
what the machine comes to that is built, loaded and preset by itself and then
run with the limit: the two succeed together, and what the command shows is that
machine and the steps on its way.

## Main definitions

* `CommandLine.effective` — the configuration with what the settings change in
  it
* `CommandLine.Ready` — nothing is wrong with what a run starts from
* `CommandLine.Prepared` — the machine that is built, loaded and preset
* `CommandLine.Succeeds` — everything is ready and that machine runs without a
  failure
* `CommandLine.opening`, `CommandLine.summary`, `CommandLine.limitWarning` — what
  is shown before and after the steps

## Main statements

* `CommandLine.prepare_eq_ok` — a run begins exactly if everything is ready
* `CommandLine.runImage_of_stops`, `CommandLine.runImage_of_fails` — what the
  command comes to when a row of steps stops, and when it fails
* `CommandLine.run_agrees_with_library` — the command as a whole

## Design notes

**The limit is one of the arguments,** so it fits sixty-four bits, and the count
of a fresh machine has room for it: `runFor` takes as many steps as the command
may.

**What is shown in addition.**  The lines of a trace and the snapshot stand
between texts that do not depend on whether they are asked for.
-/

namespace StackMachine.CommandLine

open StackMachine.Machine (Path Stops Fails)

/-! ### What a run starts from -/

/-- The configuration with what the settings change in it. -/
def effective (s : Settings) (base : Config) : Config where
  memorySize := s.memorySize.getD base.memorySize
  opcodePolicy := if s.permissive then .permissive else base.opcodePolicy

/-- The configuration in the file that is named, if the file can be read and its
text is accepted, or else the default one. -/
inductive BaseConfig (files : Files) : Option String → Config → Prop
  /-- No file is named. -/
  | default : BaseConfig files none Config.default
  /-- A file is named. -/
  | file {path text : String} {base : Config}
      (hread : readText files path = .ok text)
      (haccept : Config.ofText text = .ok base) : BaseConfig files (some path) base

/-- Nothing is wrong with what a run starts from. -/
structure Ready (files : Files) (path : String) (s : Settings)
    (image : ByteArray) (base : Config)
    (words : List (Register × UInt16)) : Prop where
  /-- The image can be read. -/
  readable : files path = .ok image
  /-- It is not empty. -/
  nonempty : image.isEmpty = false
  /-- The configuration is accepted. -/
  config : BaseConfig files s.config base
  /-- The memory is not too small. -/
  size_ge : 2 ≤ (effective s base).memorySize
  /-- The memory is not too large. -/
  size_le : (effective s base).memorySize ≤ 65536
  /-- The image fits at the origin. -/
  fits : s.origin.toNat + image.size ≤ (effective s base).memorySize
  /-- Every preset is a register and a word. -/
  presets : s.presets.mapM readPreset = .ok words

/-- The machine with words put into registers, one after another. -/
def preset (m : Machine) (words : List (Register × UInt16)) : Machine :=
  words.foldl (fun m word => m.setRegister word.1 word.2) m

/-- The machine is built as configured, the image is loaded at the origin, where
the machine is to start, and the words are put into their registers in order. -/
def Prepared (c : Config) (origin : UInt16) (image : ByteArray)
    (words : List (Register × UInt16)) (m : Machine) : Prop :=
  ∃ m₀ m₁, Machine.create c = .ok m₀ ∧
    Machine.loadProgram (.ofBytes origin image.data) m₀ = .ok () m₁ ∧
    m = preset (m₁.setRegister .ip origin) words

/-- Everything is ready, and the machine that is prepared runs without a failure. -/
def Succeeds (files : Files) (path : String) (s : Settings) : Prop :=
  ∃ image base words m count m', Ready files path s image base words ∧
    Prepared (effective s base) s.origin image words m ∧
    Machine.runFor s.maxSteps m = .ok count m'

/-! ### What is shown -/

/-- What is shown before the first step. -/
def opening (path : String) (s : Settings) (image : ByteArray) (m : Machine) :
    String :=
  "🔧 Running: " ++ path ++ "\n" ++
    "📂 Loaded " ++ toString image.size ++ " bytes at " ++ Hex.word s.origin ++
    "\n" ++ "Opcode policy: " ++ m.policy.label ++
    "\n\n━━━ Execution ━━━\n"

/-- What is shown of a machine that has run: how many steps it has taken, its
state, its registers, and the view of its stack or else why there is none. -/
def summary (steps : Nat) (m : Machine) : String :=
  "\n━━━ Result ━━━\n" ++ "Steps: " ++ toString steps ++ "\n" ++
    "State: " ++ m.state.name ++ "\n" ++ m.registerDump ++ "\n" ++
    (match m.viewStack with
    | .ok view => "Stack: " ++ view
    | .error cause => "Stack: unavailable (" ++ cause.message ++ ")") ++ "\n"

/-- The snapshot of a machine that has run. -/
def snapshotText (m : Machine) : String := m.snapshot.toJson.pretty ++ "\n"

/-- What is said about the limit if the machine could go on. -/
def limitWarning (limit : Nat) (m : Machine) : String :=
  if m.state = .running then
    "\n⚠️  Reached max steps limit (" ++ toString limit ++
      "). Use --max-steps to increase.\n"
  else ""

variable {files : Files} {path : String} {s : Settings}
  {m m' m₁ : Machine} {e : Fault}
variable {steps : List (Step × Machine)} {image : ByteArray} {base : Config}
variable {words : List (Register × UInt16)}

/-! ### Preparing a machine -/

/-- To name the cause of a failure in other words does not make it a success,
nor the other way around. -/
theorem mapError_eq_ok {ε ε' α : Type} {f : ε → ε'} {x : Except ε α} {a : α} :
    x.mapError f = .ok a ↔ x = .ok a := by
  cases x <;> simp [Except.mapError]

/-- The configuration of a run is the one in the file that is named,
or the default, with the changes that the settings make.  Only the
file can be at fault. -/
theorem configure_eq_ok {c : Config} :
    configure files s = .ok c ↔ ∃ base, BaseConfig files s.config base ∧
      c = effective s base := by
  unfold configure
  cases s.config with
  | none =>
    constructor
    · intro h
      cases h
      exact ⟨Config.default, .default, rfl⟩
    · rintro ⟨base, hbase, rfl⟩
      cases hbase
      rfl
  | some file =>
    constructor
    · intro h
      obtain ⟨text, hread, h⟩ := except_bind_eq_ok.1 h
      obtain ⟨base, haccept, h⟩ := except_bind_eq_ok.1 h
      cases h
      exact ⟨base, .file (mapError_eq_ok.1 hread) (mapError_eq_ok.1 haccept), rfl⟩
    · rintro ⟨base, hbase, rfl⟩
      cases hbase with
      | file hread haccept =>
        refine except_bind_eq_ok.2 ⟨_, mapError_eq_ok.2 hread, ?_⟩
        exact except_bind_eq_ok.2 ⟨_, mapError_eq_ok.2 haccept, rfl⟩

/-- A machine is built exactly with a memory of two to 65536 bytes, and is
then the fresh one. -/
theorem create_eq_ok {c : Config} :
    Machine.create c = .ok m ↔ (2 ≤ c.memorySize ∧ c.memorySize ≤ 65536) ∧
      m = Machine.fresh (Memory.zeroed c.memorySize) c.opcodePolicy := by
  rw [Machine.create_eq]
  constructor
  · intro h
    split at h <;> cases h
    next hsize => exact ⟨hsize, rfl⟩
  · rintro ⟨hsize, rfl⟩
    exact if_pos hsize

/-- The image of a run is a program of one segment, so that to load the program
is to load its bytes. -/
theorem loadProgram_ofBytes (origin : UInt16) (bytes : Array UInt8) (m : Machine) :
    Machine.loadProgram (.ofBytes origin bytes) m =
      Machine.load origin bytes.toList m := by
  show (Machine.load origin bytes.toList >>= fun _ => pure ()) m = _
  rw [Action.bind_apply]
  cases Machine.load origin bytes.toList m <;> rfl

/-- Presets are applied if all of them can be read.  That each was
read and applied before the next one was looked at makes no difference
to a run that begins. -/
theorem applyPresets_eq_ok {presets : List String} :
    applyPresets presets m = .ok () m' ↔
      ∃ words, presets.mapM readPreset = .ok words ∧ m' = preset m words := by
  induction presets generalizing m with
  | nil =>
    constructor
    · intro h
      cases h
      exact ⟨[], rfl, rfl⟩
    · rintro ⟨words, hwords, rfl⟩
      cases hwords
      rfl
  | cons text presets ih =>
    rw [List.mapM_cons, applyPresets_cons]
    cases hread : readPreset text with
    | error cause =>
      constructor
      · intro h
        cases h
      · rintro ⟨words, hwords, -⟩
        cases hwords
    | ok word =>
      simp only [ih]
      constructor
      · rintro ⟨words, hwords, rfl⟩
        refine ⟨word :: words, ?_, rfl⟩
        exact except_bind_eq_ok.2
          ⟨word, rfl, except_bind_eq_ok.2 ⟨words, hwords, rfl⟩⟩
      · rintro ⟨all, hall, rfl⟩
        obtain ⟨_, hword, hall⟩ := except_bind_eq_ok.1 hall
        obtain ⟨words, hwords, hall⟩ := except_bind_eq_ok.1 hall
        cases hword
        cases hall
        exact ⟨words, hwords, rfl⟩

/-- A machine can be prepared exactly if it can have so much memory and the
image fits into it.  Presets cannot fail once they have been read. -/
theorem exists_prepared {c : Config} {origin : UInt16} :
    (∃ m, Prepared c origin image words m) ↔
      (2 ≤ c.memorySize ∧ c.memorySize ≤ 65536) ∧
        origin.toNat + image.size ≤ c.memorySize := by
  constructor
  · rintro ⟨m, m₀, m₁, hcreate, hload, -⟩
    obtain ⟨hsize, rfl⟩ := create_eq_ok.1 hcreate
    rw [loadProgram_ofBytes] at hload
    have hfits := (Machine.load_eq_ok hload).1
    rw [Machine.fresh, Memory.size_zeroed] at hfits
    exact ⟨hsize, hfits⟩
  · rintro ⟨hsize, hfits⟩
    have hroom : origin.toNat + image.data.toList.length ≤
        (Machine.fresh (Memory.zeroed c.memorySize)
          c.opcodePolicy).memory.size := by
      rw [Machine.fresh, Memory.size_zeroed]
      exact hfits
    have hload := Machine.load_of_le hroom
    rw [← loadProgram_ofBytes] at hload
    exact ⟨_, _, _, create_eq_ok.2 ⟨hsize, rfl⟩, hload, rfl⟩

/-- A run begins exactly if everything is ready, and then with the machine that
is prepared.  The size that is shown is that of the image. -/
theorem prepare_eq_ok {size : Nat} :
    prepare files path s = .ok (m, size) ↔
      ∃ image base words, Ready files path s image base words ∧
        Prepared (effective s base) s.origin image words m ∧ size = image.size := by
  unfold prepare
  constructor
  · intro h
    obtain ⟨image, hread, h⟩ := except_bind_eq_ok.1 h
    cases hempty : image.isEmpty with
    | true =>
      rw [hempty] at h
      cases h
    | false =>
      rw [hempty] at h
      obtain ⟨c, hconfigure, h⟩ := except_bind_eq_ok.1 h
      obtain ⟨base, hbase, rfl⟩ := configure_eq_ok.1 hconfigure
      obtain ⟨m₀, hcreate, h⟩ := except_bind_eq_ok.1 h
      split at h
      · cases h
      · next m₁ hload =>
        split at h
        · cases h
        · next m₂ hpresets =>
          cases h
          obtain ⟨words, hwords, hm⟩ := applyPresets_eq_ok.1 hpresets
          have hprepared : Prepared (effective s base) s.origin image words m :=
            ⟨m₀, m₁, mapError_eq_ok.1 hcreate, hload, hm⟩
          obtain ⟨⟨hge, hle⟩, hfits⟩ := exists_prepared.1 ⟨m, hprepared⟩
          have hready : Ready files path s image base words :=
            ⟨mapError_eq_ok.1 hread, hempty, hbase, hge, hle, hfits, hwords⟩
          exact ⟨image, base, words, hready, hprepared, rfl⟩
  · rintro ⟨image, base, words, hready, ⟨m₀, m₁, hcreate, hload, rfl⟩, rfl⟩
    have hpresets : applyPresets s.presets (m₁.setRegister .ip s.origin) =
        .ok () (preset (m₁.setRegister .ip s.origin) words) :=
      applyPresets_eq_ok.2 ⟨words, hready.presets, rfl⟩
    refine except_bind_eq_ok.2 ⟨image, mapError_eq_ok.2 hready.readable, ?_⟩
    rw [hready.nonempty]
    refine except_bind_eq_ok.2 ⟨_, configure_eq_ok.2 ⟨base, hready.config, rfl⟩, ?_⟩
    refine except_bind_eq_ok.2 ⟨m₀, mapError_eq_ok.2 hcreate, ?_⟩
    simp only [EStateM.run, hload, hpresets]
    rfl

/-- What is shown in addition, a trace or a snapshot, does not go into the
machine.  A run with other settings of what is shown begins as this one does. -/
theorem prepare_shown (files : Files) (path : String) (s : Settings)
    (trace json : Bool) :
    prepare files path { s with trace, json } = prepare files path s := rfl

/-- Presets are values of registers, and leave what is recorded of the machine
alone. -/
theorem sameRecord_preset (m : Machine) (words : List (Register × UInt16)) :
    Machine.SameRecord m (preset m words) := by
  induction words generalizing m with
  | nil => exact .refl m
  | cons word words ih =>
    exact (Machine.SameRecord.setRegister m word.1 word.2).trans (ih _)

/-- Only one machine is prepared.  What is shown of some such machine is
therefore what is shown of the one at hand. -/
theorem Prepared.eq {c : Config} {origin : UInt16}
    (h : Prepared c origin image words m)
    (h' : Prepared c origin image words m') : m = m' := by
  obtain ⟨m₀, m₁, hcreate, hload, rfl⟩ := h
  obtain ⟨n₀, n₁, hcreate', hload', rfl⟩ := h'
  cases hcreate.symm.trans hcreate'
  cases hload.symm.trans hload'
  rfl

/-- Nothing has been recorded of a machine that is prepared.  It is running, and
the count of its steps starts at zero. -/
theorem Prepared.unused {c : Config} {origin : UInt16}
    (h : Prepared c origin image words m) :
    m.state = .running ∧ m.cycles = 0 := by
  obtain ⟨m₀, m₁, hcreate, hload, rfl⟩ := h
  obtain ⟨-, rfl⟩ := create_eq_ok.1 hcreate
  rw [loadProgram_ofBytes] at hload
  obtain ⟨-, rfl⟩ := Machine.load_eq_ok hload
  exact ⟨(sameRecord_preset _ words).state, (sameRecord_preset _ words).cycles⟩

/-- A run with an accepted limit may take as many steps as the limit says.  The
count of a fresh machine has room for every number that is read as a limit. -/
theorem Prepared.min_budget {c : Config} {origin : UInt16}
    (h : Prepared c origin image words m) (hfit : NumbersFit s) :
    min s.maxSteps m.budget = s.maxSteps := by
  rw [Machine.budget, h.unused.2]
  exact Nat.min_eq_left hfit.1

/-! ### Carrying out the command -/

/-- Behind anything else, what is shown of a machine that has run, with its
snapshot if that is asked for and with the warning.  The command compares the
number of steps with the limit before it warns; a machine that is still running
has always reached it. -/
theorem append_resultText (output : String) (h : Stops s.maxSteps m steps m') :
    output ++ resultText s steps.length m' =
      output ++ summary steps.length m' ++
        (if s.json then snapshotText m' else "") ++
        limitWarning s.maxSteps m' := by
  have hwarning : (s.maxSteps ≤ steps.length ∧ m'.state = .running) =
      (m'.state = .running) := by
    refine propext ⟨And.right, fun hstate => ⟨?_, hstate⟩⟩
    exact Nat.le_of_eq (h.length_eq hstate).symm
  have hresult : resultText s steps.length m' =
      summary steps.length m' ++ (if s.json then snapshotText m' else "") ++
        limitWarning s.maxSteps m' := by
    unfold resultText summary limitWarning stackText
    simp only [hwarning]
    cases m'.viewStack <;> rfl
  rw [hresult, ← String.append_assoc, ← String.append_assoc]

/-- The command succeeds when its row of steps stops, by a halt or at
the limit. It shows the opening, the lines of a trace if it is asked
for, and the result. -/
theorem runImage_of_stops (hprepare : prepare files path s = .ok (m, image.size))
    (hstate : m.state = .running) (h : Stops s.maxSteps m steps m') :
    runImage files path s =
      .success (opening path s image m ++
        (if s.trace then linesText (pathLines m steps) else "") ++
        summary steps.length m' ++ (if s.json then snapshotText m' else "") ++
        limitWarning s.maxSteps m') := by
  have hshown := append_resultText
    (opening path s image m ++
      (if s.trace then linesText (pathLines m steps) else "")) h
  unfold runImage
  rw [hprepare]
  simp only [Machine.trace_of_stops hstate h, (traceLines_pathRows m steps).1,
    Machine.length_pathRows]
  -- The last record, if there is one, is not that of a failure.
  cases hlast : (Machine.pathRows m steps).getLast? with
  | none => exact congrArg Outcome.success hshown
  | some row =>
    obtain ⟨done, hok⟩ := Machine.ok_of_mem_pathRows (List.mem_of_getLast? hlast)
    obtain ⟨ip, item, outcome, acc, sp, fp, frameBytes⟩ := row
    cases hok
    exact congrArg Outcome.success hshown

/-- The command fails when its row of steps does.  The lines of the steps before
the failure are still shown, and the address in the complaint is where the
machine has been left. -/
theorem runImage_of_fails (hprepare : prepare files path s = .ok (m, image.size))
    (h : Fails s.maxSteps m steps m₁ e m') :
    runImage files path s =
      .failure (opening path s image m ++
        (if s.trace then linesText (pathLines m steps) else ""))
        ("CPU error at IP=" ++ Hex.word m'.ip ++ ": " ++ e.message) := by
  have hip : m'.ip = m₁.ip := by
    rw [Machine.step_of_error h.running h.failing]
    rfl
  unfold runImage
  rw [hprepare]
  simp only [Machine.trace_of_fails h, (traceLines_pathRows m steps).2,
    List.getLast?_append, List.getLast?_singleton, Option.some_or, hip]
  rfl

/-- The command fails at once when nothing can be prepared.  Nothing but the
name of the image has been shown by then. -/
theorem runImage_of_error {cause : StartError}
    (hprepare : prepare files path s = .error cause) :
    runImage files path s =
      .failure ("🔧 Running: " ++ path ++ "\n") cause.message := by
  unfold runImage
  rw [hprepare]

section Agreement

variable (hfit : NumbersFit s) (hready : Ready files path s image base words)
variable (hprepared : Prepared (effective s base) s.origin image words m)

include hfit hready hprepared

/-- Where the run of the prepared machine succeeds, the command shows the
machine and the steps on its way.  The steps are the same whatever is asked for,
so the settings of what is shown are chosen behind them. -/
theorem runImage_of_ok {count : Nat}
    (hrun : Machine.runFor s.maxSteps m = .ok count m') :
    ∃ steps, Path m steps m' ∧ steps.length = count ∧
      ∀ trace json, runImage files path { s with trace, json } =
        .success (opening path s image m ++
          (if trace then linesText (pathLines m steps) else "") ++
          summary count m' ++ (if json then snapshotText m' else "") ++
          limitWarning s.maxSteps m') := by
  obtain ⟨steps, rfl, hstops⟩ := Machine.runFor_eq_ok.1 hrun
  rw [hprepared.min_budget hfit] at hstops
  refine ⟨steps, hstops.reaches, rfl, fun trace json => ?_⟩
  have hprepare : prepare files path s = .ok (m, image.size) :=
    prepare_eq_ok.2 ⟨image, base, words, hready, hprepared, rfl⟩
  exact runImage_of_stops ((prepare_shown files path s trace json).trans hprepare)
    hprepared.unused.1 hstops

/-- Where the run of the prepared machine fails, the command shows the steps
before the failure, and complains with the cause that the run has. -/
theorem runImage_of_fault (hrun : Machine.runFor s.maxSteps m = .error e m') :
    ∃ steps m₁, Path m steps m₁ ∧ Machine.step m₁ = .error e m' ∧
      ∀ trace json, runImage files path { s with trace, json } =
        .failure (opening path s image m ++
          (if trace then linesText (pathLines m steps) else ""))
          ("CPU error at IP=" ++ Hex.word m'.ip ++ ": " ++ e.message) := by
  obtain ⟨steps, m₁, hfails⟩ := Machine.runFor_eq_error.1 hrun
  rw [hprepared.min_budget hfit] at hfails
  refine ⟨steps, m₁, hfails.reaches, hfails.failing, fun trace json => ?_⟩
  have hprepare : prepare files path s = .ok (m, image.size) :=
    prepare_eq_ok.2 ⟨image, base, words, hready, hprepared, rfl⟩
  exact runImage_of_fails ((prepare_shown files path s trace json).trans hprepare)
    hfails

end Agreement

/-- The command exits with zero exactly if what it asks for succeeds, and with
one if not.  There is no third exit code, also where a file cannot be read. -/
theorem exitCode_runImage (hfit : NumbersFit s) :
    ((runImage files path s).exitCode = 0 ↔ Succeeds files path s) ∧
      ((runImage files path s).exitCode ≠ 0 →
        (runImage files path s).exitCode = 1) := by
  have hzero : Succeeds files path s → (runImage files path s).exitCode = 0 := by
    rintro ⟨image, base, words, m, count, m', hready, hprepared, hrun⟩
    obtain ⟨steps, -, -, hshown⟩ := runImage_of_ok hfit hready hprepared hrun
    exact congrArg Outcome.exitCode (hshown s.trace s.json)
  have hone : Succeeds files path s ∨ (runImage files path s).exitCode = 1 := by
    cases hprepare : prepare files path s with
    | error cause =>
      rw [runImage_of_error hprepare]
      exact .inr rfl
    | ok prepared =>
      obtain ⟨image, base, words, hready, hprepared, -⟩ := prepare_eq_ok.1 hprepare
      cases hrun : Machine.runFor s.maxSteps prepared.1 with
      | ok count m' =>
        exact .inl ⟨image, base, words, _, count, m', hready, hprepared, hrun⟩
      | error e m' =>
        obtain ⟨steps, m₁, -, -, hshown⟩ :=
          runImage_of_fault hfit hready hprepared hrun
        exact .inr (congrArg Outcome.exitCode (hshown s.trace s.json))
  rcases hone with hsucceeds | hone
  · exact ⟨⟨fun _ => hsucceeds, hzero⟩, fun h => absurd (hzero hsucceeds) h⟩
  · refine ⟨⟨fun h => ?_, hzero⟩, fun _ => hone⟩
    rw [hone] at h
    cases h

/-- The only file that there is holds a push of a register and a halt. -/
def pushingFiles : Files := fun path =>
  if path = "push.bin" then .ok ⟨#[0x18, 0x02, 0xff]⟩ else .error .notFound

/-- A small memory and a word to push. -/
def pushingSettings : Settings :=
  { given := [.preset, .memorySize, .maxSteps], maxSteps := 3, memorySize := some 16
    presets := ["r1=0x2a"] }

/-- The machine that the settings ask for. -/
def pushingMachine : Machine :=
  preset (((Machine.fresh (Memory.zeroed 16) .strict).mapMemory
    (·.overwrite 0 [0x18, 0x02, 0xff])).setRegister .ip 0) [(.r1, 0x2a)]

/-- The machine behind the push and the halt. -/
def pushedAndHalted : Machine :=
  { (pushingMachine.setRegister .ip 3).pushed 0x2a with
    state := .halted
    cycles := 2
    lastOpcode := some .hlt }

/-- A value may be an argument of its own, as that of the limit, or stand behind
an equals sign, as that of the memory size. -/
theorem parse_pushing :
    parse ["run", "push.bin", "--max-steps", "3", "--memory-size=16",
      "--reg", "r1=0x2a"] =
      .ok (.run "push.bin" pushingSettings) := by
  decide +kernel

/-- The image is the only file that is read, as no configuration is named. -/
theorem ready_pushing :
    Ready pushingFiles "push.bin" pushingSettings
      ⟨#[0x18, 0x02, 0xff]⟩ Config.default
      [(.r1, 0x2a)] where
  readable := rfl
  nonempty := rfl
  config := .default
  size_ge := by decide
  size_le := by decide
  fits := by decide
  presets := by decide +kernel

/-- The machine is built with sixteen bytes, the image is loaded at address
zero, and the register is preset. -/
theorem prepared_pushing :
    Prepared (effective pushingSettings Config.default) pushingSettings.origin
      ⟨#[0x18, 0x02, 0xff]⟩ [(.r1, 0x2a)] pushingMachine :=
  ⟨_, _, rfl, rfl, rfl⟩

/-- The push and the halt, each with the machine behind it. -/
def pushingSteps : List (Step × Machine) :=
  [(.executed .pushReg,
      { (pushingMachine.setRegister .ip 2).pushed 0x2a with
        cycles := 1
        lastOpcode := some .pushReg }),
    (.executed .hlt, pushedAndHalted)]

/-- The push is executed, and then the halt behind it. -/
theorem path_pushing : Path pushingMachine pushingSteps pushedAndHalted :=
  .cons rfl (.cons rfl (.nil _))

/-- The limit leaves room for a third step, but the machine has halted. -/
theorem runFor_pushing :
    Machine.runFor pushingSettings.maxSteps pushingMachine =
      .ok 2 pushedAndHalted := by
  refine Machine.runFor_eq_ok.2 ⟨pushingSteps, rfl, path_pushing, ?_, ?_⟩
  · decide
  · intro hrunning
    cases hrunning

/-- The image with its size, and the policy, which is the default one. -/
theorem opening_pushing :
    opening "push.bin" pushingSettings ⟨#[0x18, 0x02, 0xff]⟩ pushingMachine =
      "🔧 Running: push.bin\n📂 Loaded 3 bytes at 0x0000\nOpcode policy: Strict\n" ++
        "\n━━━ Execution ━━━\n" := by
  decide +kernel

/-- Each step is shown with its address and with the registers as they are
behind it. -/
theorem linesText_pushing :
    linesText (pathLines pushingMachine pushingSteps) =
      "0x0000: psh r1                   ACC=0x0000 SP=0x000c FP=0x000e\n" ++
        "0x0002: hlt                      ACC=0x0000 SP=0x000c FP=0x000e\n" := by
  decide +kernel

/-- The stack is shown from its pointer on: the free slot, and behind it the
word that was pushed. -/
theorem summary_pushing :
    summary 2 pushedAndHalted =
      "\n━━━ Result ━━━\nSteps: 2\nState: Halted\nip: 0x0003\nacc: 0x0000\n" ++
        "r1: 0x002a\nr2: 0x0000\nr3: 0x0000\nr4: 0x0000\n" ++
        "r5: 0x0000\nr6: 0x0000\nr7: 0x0000\nr8: 0x0000\n" ++
        "sp: 0x000c\nfp: 0x000e\nStack: 0x000c: 0x00 0x00 0x00 0x2a\n" := by
  decide +kernel

end StackMachine.CommandLine
