import StackMachine.Encoding
import StackMachine.Proofs.AcceptedArguments
import StackMachine.Proofs.Account
import StackMachine.Proofs.Loading
import StackMachine.Proofs.RegisterCells

/-!
# Fresh machines

A machine is fresh when it has been built from a configuration, around a memory,
or from a text, and again when it has been reset.  All these ways lead to the
same machine: the one that its size and its policy determine.

## Main definitions

* `Machine.IsFresh` — a machine of a configuration that has not run
* `Machine.Construction` — the ways to build a machine
* `Machine.Operation`, `Machine.after`, `Machine.afterAll` — what can be done to
  a machine from outside, and the machine after it
* `Machine.config` — the configuration by which a machine of this size and
  policy is built
* `Action.KeepsConfig` — an action that leaves size and policy as they are

## Main statements

* `Machine.reset_eq_fresh` — a reset leaves nothing of a machine but its size
  and its policy
* `Machine.config_afterAll` — no operation changes the size, and only a new
  policy the policy
* `Machine.fresh_machines_agree` — all of this for every construction and every
  history

## Design notes

**A reset needs no history.**  What a reset gives follows from size and policy
of any machine at all.  The history matters for one thing only, which is that
the size is still one by which a machine can be built; and for this no operation
may add or remove a byte of memory, also where it fails halfway.
-/

namespace StackMachine

namespace Machine

/-- A machine that has not run, of the size and the policy of a configuration. -/
structure IsFresh (c : Config) (m : Machine) : Prop where
  /-- Memory has the size configured, and every byte of it is zero. -/
  memory : m.memory = Memory.zeroed c.memorySize
  /-- The policy is the one configured. -/
  policy : m.policy = c.opcodePolicy
  /-- The stack pointer is exactly one word below the end of memory. -/
  sp : m.sp.toNat + 2 = c.memorySize
  /-- So is the frame pointer. -/
  fp : m.fp.toNat + 2 = c.memorySize
  /-- Every other register is zero. -/
  register : ∀ r, r ≠ .sp → r ≠ .fp → m.register r = 0
  /-- Nothing has been recorded. -/
  record : m.state = .running ∧ m.cycles = 0 ∧ m.frameBytes = 0 ∧
    m.lastOpcode = none

/-- The ways to build a machine. -/
inductive Construction where
  /-- From a configuration. -/
  | create (c : Config)
  /-- Around an image of its memory. -/
  | withMemory (memory : Memory) (policy : OpcodePolicy)
  /-- From the text of a configuration. -/
  | ofText (text : String)
  /-- From the default configuration. -/
  | default

/-- The machine that is built, if it can be. -/
def Construction.machine : Construction → Except ConfigError Machine
  | create c => Machine.create c
  | withMemory memory policy => Machine.withMemory memory policy
  | ofText text => do Machine.create (← Config.ofText text)
  | default => .ok Machine.default

/-- What can be done to a machine from outside. -/
inductive Operation where
  /-- A step, a run with a limit or a run until halt. -/
  | ask (call : Call)
  /-- An opcode is executed whose operands stand at the instruction pointer. -/
  | execute (op : Opcode)
  | fetchByte
  | fetchWord
  | fetchRegister
  | push (value : UInt16)
  | pop
  | load (origin : UInt16) (bytes : List UInt8)
  | loadProgram (p : Program)
  /-- Memory is read, written or cleared. -/
  | memory (request : Memory.Request)
  | setRegister (r : Register) (value : UInt16)
  | setRegisterNamed (name : String) (value : UInt16)
  /-- All registers are replaced. -/
  | setBank (bank : Bank)
  | setPolicy (policy : OpcodePolicy)
  | setState (state : RunState)
  | setCycles (cycles : UInt64)
  | reset

open StackMachine.Action (leaves leaves_bind bind_eq_ok Confined)

/-- The machine after an operation, whether or not the operation succeeds. -/
def after (m : Machine) : Operation → Machine
  | .ask call => m.afterCall call
  | .execute op => leaves (execute op) m
  | .fetchByte => leaves fetchByte m
  | .fetchWord => leaves fetchWord m
  | .fetchRegister => leaves fetchRegister m
  | .push value => leaves (push value) m
  | .pop => leaves pop m
  | .load origin bytes => leaves (load origin bytes) m
  | .loadProgram p => leaves (loadProgram p) m
  | .memory request => { m with memory := (m.memory.serve request).2 }
  | .setRegister r value => m.setRegister r value
  | .setRegisterNamed name value =>
    match m.setRegisterNamed name value with
    | .ok m' => m'
    | .error _ => m
  | .setBank bank => { m with bank }
  | .setPolicy policy => { m with policy }
  | .setState state => { m with state }
  | .setCycles cycles => { m with cycles }
  | .reset => m.reset

/-- The machine after one operation after another. -/
def afterAll (m : Machine) (operations : List Operation) : Machine :=
  operations.foldl after m

/-- The configuration by which a machine of this size and policy is built. -/
def config (m : Machine) : Config := ⟨m.memory.size, m.policy⟩

/-- The policy that an operation sets, if it sets one. -/
def Operation.policy? : Operation → Option OpcodePolicy
  | setPolicy policy => some policy
  | _ => none

/-- The policy after some operations: the one set last, and the first if none is. -/
def lastPolicy (first : OpcodePolicy) (operations : List Operation) :
    OpcodePolicy :=
  (operations.filterMap Operation.policy?).getLastD first

end Machine

namespace Action

open Machine (config Undoable)

variable {ε α β : Type}

/-- An action that leaves the size of memory and the policy as they are, whether
or not it succeeds. -/
structure KeepsConfig (action : Action ε α) : Prop where
  /-- The configuration is the one before. -/
  config_eq : ∀ m, (action.leaves m).config = m.config

/-- What can be undone is not the size of the memory and not the policy. -/
theorem config_of_undoable {m m' : Machine} (h : Undoable m m') :
    m'.config = m.config := by
  have hundone : m'.undone m = m := h
  calc m'.config = (m'.undone m).config := rfl
    _ = m.config := by rw [hundone]

/-- So confined actions keep both, however they end. -/
theorem Confined.keepsConfig {action : Action ε α} (h : Confined action) :
    KeepsConfig action where
  config_eq m := by
    unfold leaves
    split
    · next hrun => exact config_of_undoable (h.of_ok hrun)
    · next hrun => exact config_of_undoable (h.of_error hrun)

end Action

namespace Machine

open StackMachine.Action (leaves bind_eq_ok Confined KeepsConfig config_of_undoable
  confined_pure)

variable {m m' : Machine}

/-! ### Operations keep size and policy -/

/-- Machines with the same record are of one size and policy. -/
theorem SameRecord.config (h : SameRecord m m') : m'.config = m.config := by
  rw [Machine.config, Machine.config, h.size, h.policy]

theorem confined_fetchOperand (kind : OperandKind) :
    Confined (fetchOperand kind) := by
  cases kind with
  | literal | address => exact confined_fetchWord.bind fun _ => confined_pure _
  | register => exact confined_fetchRegister.bind fun _ => confined_pure _
  | registerIndex => exact confined_fetchByte.bind fun _ => confined_pure _

theorem confined_fetchOperands (kinds : List OperandKind) :
    Confined (fetchOperands kinds) := by
  induction kinds with
  | nil => exact confined_pure _
  | cons kind kinds ih =>
    exact (confined_fetchOperand kind).bind fun _ => ih.bind fun _ =>
      confined_pure _

/-- An instruction that succeeds adds no byte to memory and sets no policy.  A
halt is looked at by itself, as all others leave the record alone. -/
theorem config_of_apply {i : Instruction} (h : m.apply i = .ok () m') :
    m'.config = m.config := by
  by_cases hhalt : i.opcode = .hlt
  · cases i <;> cases hhalt
    cases h
    rfl
  · exact (sameRecord_of_apply h hhalt).config

/-- So an opcode keeps both, as its fetches do and its failures can be undone. -/
theorem keepsConfig_execute (op : Opcode) : KeepsConfig (execute op) where
  config_eq m := by
    unfold leaves
    split
    · next done m' hrun =>
      rw [execute_eq] at hrun
      obtain ⟨operands, m₁, hfetch, happly⟩ := bind_eq_ok.1 hrun
      have hfetched :=
        config_of_undoable ((confined_fetchOperands op.layout).of_ok hfetch)
      rw [applyOperands] at happly
      split at happly
      · exact (config_of_apply happly).trans hfetched
      · cases happly
        exact hfetched
    · next e m' hrun =>
        exact config_of_undoable ((failsUndoable_execute op).of_error hrun)

theorem keepsConfig_push (value : UInt16) : KeepsConfig (push value) where
  config_eq m := by
    unfold leaves
    split
    · next hrun =>
      obtain ⟨-, rfl⟩ := push_eq_ok hrun
      exact (SameRecord.pushed m value).config
    · next hrun =>
        exact config_of_undoable ((failsUndoable_push value).of_error hrun)

theorem keepsConfig_load (origin : UInt16) (bytes : List UInt8) :
    KeepsConfig (load origin bytes) where
  config_eq m := by
    unfold leaves load
    split
    · next hrun =>
      split at hrun <;> cases hrun
      exact congrArg (Config.mk · m.policy) (Memory.size_overwrite ..)
    · next hrun =>
      split at hrun <;> cases hrun
      rfl

/-- A program that is loaded, in full or up to a segment that does not fit, adds
no byte to memory. -/
theorem keepsConfig_loadProgram (p : Program) : KeepsConfig (loadProgram p) where
  config_eq m := by
    unfold leaves
    rcases loadProgram_cases p m with ⟨-, hload⟩ | ⟨before, _, _, -, -, -, hload⟩
    · rw [hload]
      exact congrArg (Config.mk · m.policy) (Memory.size_withSegments ..)
    · rw [hload]
      exact congrArg (Config.mk · m.policy) (Memory.size_withSegments ..)

/-- Steps and runs keep both. -/
theorem config_afterCall (m : Machine) (call : Call) :
    (m.afterCall call).config = m.config := by
  have h := attempts_of_call m call
  rw [config, config, h.size_eq, h.policy_eq]

/-- An operation leaves the size as it is, and the policy unless it sets one.
The operations are all that can be done to a machine. -/
theorem config_after (m : Machine) (operation : Operation) :
    (m.after operation).config =
      ⟨m.memory.size, operation.policy?.getD m.policy⟩ := by
  cases operation with
  | ask call => exact config_afterCall m call
  | execute op => exact (keepsConfig_execute op).config_eq m
  | fetchByte => exact confined_fetchByte.keepsConfig.config_eq m
  | fetchWord => exact confined_fetchWord.keepsConfig.config_eq m
  | fetchRegister => exact confined_fetchRegister.keepsConfig.config_eq m
  | push value => exact (keepsConfig_push value).config_eq m
  | pop => exact confined_pop.keepsConfig.config_eq m
  | load origin bytes => exact (keepsConfig_load origin bytes).config_eq m
  | loadProgram p => exact (keepsConfig_loadProgram p).config_eq m
  | memory request =>
    exact congrArg (Config.mk · m.policy) (m.memory.size_serve request)
  | setRegister | setBank | setPolicy | setState | setCycles => rfl
  | setRegisterNamed name value =>
    rw [after, setRegisterNamed]
    cases Register.parse name <;> rfl
  | reset => exact congrArg (Config.mk · m.policy) (Memory.size_clear m.memory)

/-- Whatever was done to a machine, it has the size that it had and the policy
that was set last.  A reset reads nothing else of it. -/
theorem config_afterAll (m : Machine) (operations : List Operation) :
    (m.afterAll operations).config =
      ⟨m.memory.size, lastPolicy m.policy operations⟩ := by
  induction operations generalizing m with
  | nil => rfl
  | cons operation operations ih =>
    obtain ⟨hsize, hpolicy⟩ := Config.mk.inj (config_after m operation)
    show ((m.after operation).afterAll operations).config = _
    rw [ih, hsize, hpolicy, lastPolicy, lastPolicy]
    cases hset : operation.policy? with
    | none => rw [List.filterMap_cons_none hset, Option.getD_none]
    | some policy =>
      rw [List.filterMap_cons_some hset, Option.getD_some, List.getLastD_cons]

/-! ### Building and resetting -/

/-- A reset leaves nothing of a machine but its size and its policy. -/
theorem reset_eq_fresh (m : Machine) :
    m.reset = fresh (Memory.zeroed m.memory.size) m.policy := by
  have hmemory : m.memory.clear = Memory.zeroed m.memory.size := by
    refine Memory.eq_of_contents (by simp) fun a => ?_
    rw [Memory.contents_clear, Memory.contents_zeroed]
  have hbank : m.bank.clear = Bank.zeroed := Bank.ext_get fun r => by simp
  have htop : stackTop (Memory.zeroed m.memory.size) = stackTop m.memory := by
    rw [stackTop, Memory.size_zeroed, stackTop]
  rw [reset, fresh, hmemory, hbank, pointAtTop, pointAtTop, htop]

/-- The top of the stack is the last word of memory.  The bounds are those of a
configuration that is accepted. -/
theorem toNat_stackTop {memory : Memory} (hmin : 2 ≤ memory.size)
    (hmax : memory.size ≤ 65536) :
    (stackTop memory).toNat + 2 = memory.size := by
  rw [stackTop, UInt16.toNat_ofNat_of_lt' (show memory.size - 2 < 65536 by omega)]
  omega

/-- A machine that was built is fresh, by every field that it has. -/
theorem isFresh_of_create {c : Config} (h : create c = .ok m) : IsFresh c m := by
  rw [create_eq] at h
  split at h <;> cases h
  next hsize =>
  have htop : (stackTop (Memory.zeroed c.memorySize)).toNat + 2 = c.memorySize := by
    have hzeroed := Memory.size_zeroed c.memorySize
    rw [toNat_stackTop (by omega) (by omega), hzeroed]
  constructor
  case memory => rfl
  case policy => rfl
  case sp => rwa [sp_fresh]
  case fp => rwa [fp_fresh]
  case register =>
    intro r hsp hfp
    have hbank : (fresh (Memory.zeroed c.memorySize) c.opcodePolicy).register r =
        Bank.zeroed.get r :=
      (Bank.get_set_of_ne _ _ hfp.symm).trans (Bank.get_set_of_ne _ _ hsp.symm)
    rw [hbank, Bank.get_zeroed]
  case record => exact ⟨rfl, rfl, rfl, rfl⟩

/-- A fresh machine into whose memory an image is loaded is the one built around
the image.  An image of full size leaves no byte of the empty memory. -/
theorem load_fresh (memory : Memory) (policy : OpcodePolicy) :
    load 0 memory.bytes.toList (fresh (Memory.zeroed memory.size) policy) =
      .ok () (fresh memory policy) := by
  have hlength : memory.bytes.toList.length = memory.size := Array.length_toList
  have hfits :
      0 + memory.bytes.toList.length ≤ (Memory.zeroed memory.size).size := by
    refine Nat.le_of_eq ?_
    rw [Nat.zero_add, hlength, Memory.size_zeroed]
  have himage :
      (Memory.zeroed memory.size).overwrite 0 memory.bytes.toList = memory := by
    refine Memory.eq_of_contents (by simp) fun a => ?_
    rw [Memory.contents_overwrite hfits, Memory.contents_zeroed,
      if_pos (Nat.zero_le a), Nat.sub_zero, Array.getElem?_toList,
      Memory.contents, Array.getD_eq_getD_getElem?]
  have htop : stackTop (Memory.zeroed memory.size) = stackTop memory := by
    rw [stackTop, Memory.size_zeroed, stackTop]
  have hload :
      load 0 memory.bytes.toList (fresh (Memory.zeroed memory.size) policy) =
      .ok () { fresh (Memory.zeroed memory.size) policy with
        memory := (Memory.zeroed memory.size).overwrite 0 memory.bytes.toList } :=
    load_of_le hfits
  rw [hload, himage, fresh, fresh, pointAtTop, pointAtTop, htop]

/-- A configuration that is accepted as text is one by which a machine can be
built, so no such text fails later on. -/
theorem fits_of_ofText {text : String} {c : Config}
    (h : Config.ofText text = .ok c) :
    2 ≤ c.memorySize ∧ c.memorySize ≤ 65536 := by
  unfold Config.ofText at h
  split at h
  · cases h
  · next read hread =>
    unfold Config.validate at h
    split at h <;> cases h
    assumption

/-- A machine that was built has a size by which one can be built, so its reset
can be compared with one that is. -/
theorem size_of_construction {construction : Construction}
    (h : construction.machine = .ok m) :
    2 ≤ m.memory.size ∧ m.memory.size ≤ 65536 := by
  have hcreate : ∀ c, create c = .ok m → 2 ≤ m.memory.size ∧
      m.memory.size ≤ 65536 := by
    intro c hc
    rw [create_eq] at hc
    split at hc <;> cases hc
    rwa [fresh, Memory.size_zeroed]
  cases construction with
  | create c => exact hcreate c h
  | withMemory memory policy =>
    have hm := (withMemory_eq memory policy).symm.trans h
    split at hm <;> cases hm
    assumption
  | ofText text =>
    obtain ⟨c, -, hc⟩ := except_bind_eq_ok.1 h
    exact hcreate c hc
  | default =>
    cases h
    rw [default, fresh, Memory.size_zeroed]
    decide

/-- All ways to a fresh machine agree.  One can be built from a configuration
and around a memory for the same sizes, and the second is the first with the
memory loaded into it.  Every configuration that is accepted as text builds a
machine that is fresh.  And whatever has been done to a machine since it was
built, its reset is the machine that is built from its size, which is the one
that it had at first, and its policy, which is the one set last; so machines
that agree in these two are one machine after a reset. -/
theorem fresh_machines_agree :
    (∀ (memory : Memory) (policy : OpcodePolicy),
      if 2 ≤ memory.size ∧ memory.size ≤ 65536 then
        ∃ m m', create ⟨memory.size, policy⟩ = .ok m ∧
          load 0 memory.bytes.toList m = .ok () m' ∧
            withMemory memory policy = .ok m'
      else
        create ⟨memory.size, policy⟩ = .error (.memorySize memory.size) ∧
          withMemory memory policy = .error (.memorySize memory.size)) ∧
    (∀ text c, Config.ofText text = .ok c → ∃ m, create c = .ok m) ∧
    (∀ c m, create c = .ok m → IsFresh c m) ∧
    create Config.default = .ok default ∧
    (∀ construction m, Construction.machine construction = .ok m → ∀ operations,
      (m.afterAll operations).config =
        ⟨m.memory.size, lastPolicy m.policy operations⟩ ∧
        create (m.afterAll operations).config = .ok (m.afterAll operations).reset) ∧
    ∀ m m' : Machine, m.config = m'.config → m.reset = m'.reset := by
  refine ⟨?_, ?_, fun _ _ => isFresh_of_create, rfl, ?_, ?_⟩
  · intro memory policy
    rw [create_eq, withMemory_eq]
    split
    · exact ⟨_, _, rfl, load_fresh memory policy, rfl⟩
    · exact ⟨rfl, rfl⟩
  · intro text c h
    exact ⟨_, (create_eq c).trans (if_pos (fits_of_ofText h))⟩
  · intro construction m h operations
    have hconfig := config_afterAll m operations
    obtain ⟨hsize, -⟩ := Config.mk.inj hconfig
    refine ⟨hconfig, ?_⟩
    rw [create_eq, reset_eq_fresh, if_pos]
    · rfl
    · show 2 ≤ (m.afterAll operations).memory.size ∧
        (m.afterAll operations).memory.size ≤ 65536
      rw [hsize]
      exact size_of_construction h
  · intro m m' h
    obtain ⟨hsize, hpolicy⟩ := Config.mk.inj h
    rw [reset_eq_fresh, reset_eq_fresh, hsize, hpolicy]

/-- A configuration with four bytes of memory. -/
def smallText : String := "\x7b \"memory_size\": 4 \x7d"

/-- The machine that is built from it. -/
def small : Machine := fresh (Memory.zeroed 4) .strict

/-- A word is pushed and popped, a second pop and a return fail halfway, the
policy, the count and a byte of memory are set, and a step is taken. -/
def mixed : List Operation :=
  [.push 0xbeef, .pop, .pop, .execute .ret, .setPolicy .permissive, .setCycles 7,
    .memory (.writeByte 0 0xfe), .setRegister .ip 0, .ask .step]

/-- All of this has left its traces, and a reset removes them but for the policy. -/
theorem mixed_history_forgotten :
    Config.ofText smallText = .ok ⟨4, .strict⟩ ∧
      Construction.machine (.ofText smallText) = .ok small ∧
      (small.afterAll mixed).cycles = 8 ∧ (small.afterAll mixed).sp = 4 ∧
      create ⟨4, .permissive⟩ = .ok (small.afterAll mixed).reset := by
  have htext : Config.ofText smallText = .ok ⟨4, .strict⟩ := by decide +kernel
  have hbuilt : Construction.machine (.ofText smallText) = .ok small := by
    rw [Construction.machine, htext]
    rfl
  obtain ⟨-, -, -, -, hreset, -⟩ := fresh_machines_agree
  obtain ⟨hconfig, hcreate⟩ := hreset _ small hbuilt mixed
  rw [hconfig] at hcreate
  exact ⟨htext, hbuilt, by decide +kernel, by decide +kernel, hcreate⟩

end Machine

end StackMachine
