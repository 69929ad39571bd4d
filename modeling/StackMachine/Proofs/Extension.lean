import StackMachine.Proofs.Path

/-!
# Larger and more lenient machines

A machine with more memory behind its own, under the same policy or under the
permissive one, takes every step that the machine takes, and never touches the
bytes that were added.

## Main definitions

* `Memory.extend`, `Machine.extend` — a machine with bytes behind its memory and
  another policy
* `Fault.Avoidable` — a failure that the larger machine may not share
* `Action.Widens` — an action whose successes carry over to the larger machine

## Main statements

* `Action.Widens.bind` — sequences carry over
* `Machine.widens_call`, `Machine.widens_ret`, `Machine.widens_execute` — every
  opcode carries over
* `Machine.step_extend` — and so does every step
* `Machine.larger_machine_follows` — all steps of a run, and what a step may
  fail on if the larger machine does not

## Design notes

**Bounds from above only.**  No access looks at the size of memory but to
compare its end with it, so an access that fits goes on to fit.  A call compares
ten slots; it is the one action that asks for the size outside of an access.

**Only failures may change.**  `Action.Widens` promises nothing about the larger
machine where the action fails, but says why it fails: an access did not fit.
Bytes that are no opcode are refused in `Machine.advance` alone, which is where
the policy comes in.
-/

namespace StackMachine

namespace Memory

/-- The memory with more bytes behind its own. -/
def extend (memory : Memory) (more : Array UInt8) : Memory := ⟨memory.bytes ++ more⟩

variable {memory : Memory} {offset : Nat} {more : Array UInt8}

/-- The bytes that are added are behind those of the memory. -/
theorem size_extend (memory : Memory) (more : Array UInt8) :
    (memory.extend more).size = memory.size + more.size := Array.size_append

/-- An access that fits the memory fits the larger one. -/
theorem fits_extend {count : Nat} (h : offset + count ≤ memory.size) :
    offset + count ≤ (memory.extend more).size := by
  rw [size_extend]
  exact Nat.le_add_right_of_le h

/-- What is read of the memory is read of the larger one.  The converse fails,
which is why a larger machine may go on where this one does not. -/
theorem readByte_extend {byte : UInt8} (h : memory.readByte offset = .ok byte) :
    (memory.extend more).readByte offset = .ok byte := by
  obtain ⟨hfits, rfl⟩ := readByte_eq_ok.1 h
  exact readByte_eq_ok.2 ⟨fits_extend hfits, Array.getElem_append_left hfits⟩

theorem readWord_extend {word : UInt16} (h : memory.readWord offset = .ok word) :
    (memory.extend more).readWord offset = .ok word := by
  unfold readWord at h
  split at h <;> cases h
  next hfits =>
  rw [readWord_of_le (fits_extend hfits)]
  have hhigh : offset < memory.bytes.size := Nat.lt_of_succ_lt hfits
  refine congrArg Except.ok (congrArg₂ Word.ofBytes ?_ ?_)
  · exact Array.getElem_append_left hhigh
  · exact Array.getElem_append_left hfits

/-- A word that fits the memory is written into it, and the bytes that were
added stay as they are. -/
theorem setWord_extend (value : UInt16) (h : offset + 2 ≤ memory.size) :
    (memory.extend more).setWord offset value (fits_extend h) =
      (memory.setWord offset value h).extend more := by
  have hhigh : offset < memory.bytes.size := Nat.lt_of_succ_lt h
  have hlow :
      offset + 1 < (memory.bytes.set offset (Word.high value) hhigh).size := by
    rw [Array.size_set]
    exact h
  simp only [setWord, extend, Array.set_append_left hhigh,
    Array.set_append_left hlow]

end Memory

/-- The machine with more bytes behind its memory and another policy. -/
def Machine.extend (m : Machine) (more : Array UInt8) (policy : OpcodePolicy) :
    Machine :=
  { m with memory := m.memory.extend more, policy }

/-- A failure under one policy that may be absent with more memory and
under another policy: an access did not fit, or a byte was refused that
would now be skipped. -/
def Fault.Avoidable (before after : OpcodePolicy) : Fault → Prop
  | memory _ => True
  | illegalInstruction .. => before = .strict ∧ after = .permissive
  | notRunning _ => False

namespace Action

open Machine (extend)

/-- An action that succeeds on a larger machine wherever it does on the machine
itself, with the same result and without a change to the bytes that were added;
and that fails only where an access does not fit. -/
structure Widens {α : Type} (more : Array UInt8) (policy : OpcodePolicy)
    (action : Action Fault α) :
    Prop where
  /-- A success carries over. -/
  of_ok : ∀ {m m' : Machine} {a : α}, action m = .ok a m' →
    action (m.extend more policy) = .ok a (m'.extend more policy)
  /-- A failure is one of memory. -/
  of_error : ∀ {m m' : Machine} {e : Fault}, action m = .error e m' →
    ∃ cause, e = .memory cause

variable {α β : Type} {more : Array UInt8} {policy : OpcodePolicy}

/-- A sequence carries over if both its parts do.  All of an execution is built
up in this way from reads, writes and moves. -/
theorem Widens.bind {action : Action Fault α} {next : α → Action Fault β}
    (h : Widens more policy action) (hnext : ∀ a, Widens more policy (next a)) :
    Widens more policy (action >>= next) where
  of_ok hrun := by
    obtain ⟨a, m₁, hfirst, hrest⟩ := bind_eq_ok.1 hrun
    rw [bind_of_ok (h.of_ok hfirst), (hnext a).of_ok hrest]
  of_error hrun := by
    rcases bind_eq_error.1 hrun with hfirst | ⟨a, m₁, -, hrest⟩
    · exact h.of_error hfirst
    · exact (hnext a).of_error hrest

theorem widens_pure (a : α) : Widens more policy (pure a) where
  of_ok hrun := by
    cases hrun
    rfl
  of_error hrun := by cases hrun

/-- The machine may be asked for anything that is the same in the larger one.
Its size is not, and no action asks for it. -/
theorem widens_get {next : Machine → Action Fault β}
    (hsame : ∀ m, next (m.extend more policy) = next m)
    (h : ∀ m, Widens more policy (next m)) :
    Widens more policy (get >>= next) where
  of_ok {m m' b} hrun := by
    rw [bind_of_ok (get_apply m)] at hrun
    rw [bind_of_ok (get_apply _), hsame]
    exact (h m).of_ok hrun
  of_error {m m' e} hrun := by
    rw [bind_of_ok (get_apply m)] at hrun
    exact (h m).of_error hrun

/-- A change carries over if it does the same to the larger machine. -/
theorem widens_modify {change : Machine → Machine}
    (h : ∀ m, change (m.extend more policy) = (change m).extend more policy) :
    Widens more policy (modify change) where
  of_ok {m m' a} hrun := by
    cases hrun
    exact congrArg (EStateM.Result.ok ()) (h m)
  of_error hrun := by cases hrun

/-- A row of actions carries over if each of them does. -/
theorem widens_forM {γ : Type} {visit : γ → Action Fault PUnit}
    (h : ∀ c, Widens more policy (visit c)) (cs : List γ) :
    Widens more policy (cs.forM visit) := by
  induction cs with
  | nil => exact widens_pure _
  | cons c cs ih => exact (h c).bind fun _ => ih

end Action

namespace Machine

open StackMachine.Action

variable {m m' : Machine} {more : Array UInt8} {policy : OpcodePolicy}

/-! ### Accesses -/

theorem widens_readRegister (r : Register) : Widens more policy (readRegister r) :=
  widens_get (fun _ => rfl) fun _ => widens_pure _

theorem widens_writeRegister (r : Register) (value : UInt16) :
    Widens more policy (writeRegister r value) := widens_modify fun _ => rfl

/-- An action that reads, and then moves on, carries over if what it reads does.
Fetches, loads and pops are all of this form. -/
theorem widens_of_read {α : Type} {action : Action Fault α}
    (read : Machine → Except OutOfBounds α)
    (next : Machine → Machine)
    (haction : ∀ m, action m =
      match read m with
      | .ok a => .ok a (next m)
      | .error cause => .error (.memory cause) m)
    (hread : ∀ {m a}, read m = .ok a → read (m.extend more policy) = .ok a)
    (hnext : ∀ m, next (m.extend more policy) = (next m).extend more policy) :
    Widens more policy action where
  of_ok {m m' a} hrun := by
    rw [haction] at hrun ⊢
    split at hrun <;> cases hrun
    next hfound => rw [hread hfound, hnext]
  of_error {m m' e} hrun := by
    rw [haction] at hrun
    split at hrun <;> cases hrun
    next cause _ => exact ⟨cause, rfl⟩

theorem widens_loadWord (address : UInt16) :
    Widens more policy (loadWord address) := by
  refine widens_of_read (·.memory.readWord address.toNat) id
    (fun m => ?_) Memory.readWord_extend
    fun _ => rfl
  unfold loadWord
  cases m.memory.readWord address.toNat <;> rfl

/-- A word is stored in the memory itself, never among the bytes that were
added, as it has fitted. -/
theorem widens_storeWord (address value : UInt16) :
    Widens more policy (storeWord address value) where
  of_ok {m m' a} hrun := by
    rw [storeWord_eq] at hrun ⊢
    split at hrun <;> cases hrun
    next hfits =>
    refine (dif_pos (Memory.fits_extend hfits)).trans ?_
    simp only [extend, Memory.setWord_extend value hfits]
  of_error hrun := by
    rw [storeWord_eq] at hrun
    split at hrun <;> cases hrun
    exact ⟨_, rfl⟩

theorem widens_registerAt (i : UInt8) : Widens more policy (registerAt i) := by
  refine widens_of_read (·.bank.readIndex i) id (fun m => ?_) id fun _ => rfl
  unfold registerAt
  cases m.bank.readIndex i <;> rfl

theorem widens_fetchByte : Widens more policy fetchByte := by
  refine widens_of_read (fun m => m.memory.readByte m.ip.toNat)
    (fun m => m.setRegister .ip (m.ip + 1))
    (fun m => ?_) Memory.readByte_extend fun _ => rfl
  unfold fetchByte
  cases m.memory.readByte m.ip.toNat <;> rfl

theorem widens_fetchWord : Widens more policy fetchWord := by
  refine widens_of_read (fun m => m.memory.readWord m.ip.toNat)
    (fun m => m.setRegister .ip (m.ip + 2))
    (fun m => ?_) Memory.readWord_extend fun _ => rfl
  unfold fetchWord
  cases m.memory.readWord m.ip.toNat <;> rfl

theorem widens_fetchRegister : Widens more policy fetchRegister :=
  widens_fetchByte.bind fun _ => widens_pure _

/-! ### The stack -/

theorem widens_push (value : UInt16) : Widens more policy (push value) := by
  refine (widens_readRegister .sp).bind fun sp => ?_
  refine (widens_storeWord sp value).bind fun _ => ?_
  exact widens_modify fun _ => rfl

theorem widens_pop : Widens more policy pop := by
  refine (widens_readRegister .sp).bind fun sp => ?_
  refine (widens_modify fun _ => rfl).bind fun _ => ?_
  exact widens_loadWord (sp + 2)

theorem widens_drop (n : Nat) : Widens more policy (drop n) := by
  induction n with
  | zero => exact widens_pure _
  | succ n ih => exact widens_pop.bind fun _ => ih

/-- The slots of a call fit into the larger memory if they fit into
the memory itself.  The test may succeed there and fail here, but not
the other way round. -/
theorem checkRoom_extend {words : Nat} (h : m.checkRoom words = .ok ()) :
    (m.extend more policy).checkRoom words = .ok () := by
  unfold checkRoom at h ⊢
  split at h <;> cases h
  next hnone =>
  have hslots : (List.range words).find? (fun i =>
      decide ((m.extend more policy).memory.size <
        (slot (m.extend more policy).sp i).toNat + 2)) =
        none := by
    rw [List.find?_eq_none] at hnone ⊢
    intro i hi
    have hfits := hnone i hi
    rw [decide_eq_true_eq, Nat.not_lt] at hfits ⊢
    exact Memory.fits_extend hfits
  rw [hslots]

/-- A call that finds room here finds room there, and pushes the same frame. -/
theorem widens_call (target : UInt16) : Widens more policy (call target) := by
  -- Behind the test, a call asks the machine for nothing that the extension
  -- changes.
  have hframe : Widens more policy (do
      Register.general.forM fun r => do push (← readRegister r)
      push (← readRegister .ip)
      push ((← get).frameBytes + 2)
      writeRegister .fp (← readRegister .sp)
      modify fun m => { m with frameBytes := 0 }
      writeRegister .ip target) := by
    refine (widens_forM (fun r =>
      (widens_readRegister r).bind widens_push) _).bind fun _ => ?_
    refine (widens_readRegister .ip).bind fun ip =>
      (widens_push ip).bind fun _ => ?_
    refine widens_get (fun _ => rfl) fun m => (widens_push _).bind fun _ => ?_
    refine (widens_readRegister .sp).bind fun sp =>
      (widens_writeRegister .fp sp).bind fun _ => ?_
    exact (widens_modify fun _ => rfl).bind fun _ => widens_writeRegister .ip target
  constructor
  case of_ok =>
    intro m m' a hrun
    unfold call at hrun ⊢
    rw [bind_of_ok (get_apply m)] at hrun
    rw [bind_of_ok (get_apply _)]
    cases hroom : m.checkRoom frameWords with
    | error cause =>
      rw [hroom] at hrun
      cases hrun
    | ok room =>
      rw [hroom] at hrun
      rw [checkRoom_extend hroom]
      exact hframe.of_ok hrun
  case of_error =>
    intro m m' e hrun
    unfold call at hrun
    rw [bind_of_ok (get_apply m)] at hrun
    cases hroom : m.checkRoom frameWords with
    | error cause =>
      rw [hroom] at hrun
      cases hrun
      exact ⟨cause, rfl⟩
    | ok room =>
      rw [hroom] at hrun
      exact hframe.of_error hrun

/-- A return reads the same words off the stack, and goes on the same way with
them. -/
theorem widens_ret : Widens more policy ret := by
  refine (widens_readRegister .fp).bind fun base => ?_
  refine (widens_writeRegister .sp base).bind fun _ => ?_
  refine widens_pop.bind fun frameSize => ?_
  refine (widens_modify fun _ => rfl).bind fun _ => ?_
  refine widens_pop.bind fun returnAddress => ?_
  refine (widens_writeRegister .ip returnAddress).bind fun _ => ?_
  refine (widens_forM (fun r =>
    widens_pop.bind (widens_writeRegister r)) _).bind fun _ => ?_
  refine widens_pop.bind fun count => ?_
  exact (widens_drop _).bind fun _ => widens_writeRegister .fp (base + frameSize)

/-! ### Opcodes and steps -/

/-- Every opcode carries over.  There is one case for each, and each is put
together from the actions above. -/
theorem widens_execute (op : Opcode) : Widens more policy (execute op) := by
  cases op with
  | movLitReg =>
    refine widens_fetchWord.bind fun literal => ?_
    exact widens_fetchRegister.bind fun target =>
      widens_writeRegister target literal
  | movRegReg =>
    refine widens_fetchRegister.bind fun source =>
      widens_fetchRegister.bind fun target => ?_
    exact (widens_readRegister source).bind (widens_writeRegister target)
  | movRegMem =>
    refine widens_fetchRegister.bind fun source =>
      widens_fetchWord.bind fun address => ?_
    exact (widens_readRegister source).bind (widens_storeWord address)
  | movMemReg =>
    refine widens_fetchWord.bind fun address =>
      widens_fetchRegister.bind fun target => ?_
    exact (widens_loadWord address).bind (widens_writeRegister target)
  | addRegReg =>
    refine widens_fetchByte.bind fun a => widens_fetchByte.bind fun b => ?_
    refine (widens_registerAt a).bind fun left =>
      (widens_registerAt b).bind fun right => ?_
    exact widens_writeRegister .acc (left + right)
  | jmpNotEq =>
    refine widens_fetchWord.bind fun literal =>
      widens_fetchWord.bind fun address => ?_
    refine (widens_readRegister .acc).bind fun acc => ?_
    split
    · exact widens_writeRegister .ip address
    · exact widens_pure _
  | pushLit => exact widens_fetchWord.bind widens_push
  | pushReg => exact widens_fetchRegister.bind fun r =>
    (widens_readRegister r).bind widens_push
  | pop => exact widens_fetchRegister.bind fun r =>
    widens_pop.bind (widens_writeRegister r)
  | calLit => exact widens_fetchWord.bind widens_call
  | calReg => exact widens_fetchRegister.bind fun r =>
    (widens_readRegister r).bind widens_call
  | ret => exact widens_ret
  | hlt => exact widens_modify fun _ => rfl

/-- The machine and the larger one are about to read the same byte. -/
theorem code_extend {code : UInt8} (h : m.memory.readByte m.ip.toNat = .ok code) :
    (m.extend more policy).memory.readByte (m.extend more policy).ip.toNat =
      .ok code :=
  Memory.readByte_extend h

/-- What a machine does in a step, the larger one does as well.  The policy
matters only for a byte that is no opcode. -/
theorem advance_extend {done : Step}
    (hpolicy : policy = m.policy ∨ policy = .permissive)
    (h : advance m = .ok done m') :
    advance (m.extend more policy) = .ok done (m'.extend more policy) := by
  cases hcode : m.memory.readByte m.ip.toNat with
  | error cause =>
    rw [advance_of_no_code hcode] at h
    cases h
  | ok code =>
    rw [advance_of_code hcode] at h
    rw [advance_of_code (code_extend hcode)]
    cases hop : Opcode.ofByte? code with
    | some op =>
      rw [hop] at h
      exact ((widens_execute op).bind fun _ => widens_pure _).of_ok h
    | none =>
      simp only [hop] at h ⊢
      cases hstrict : m.policy with
      | strict =>
        rw [hstrict] at h
        cases h
      | permissive =>
        have hsame : (m.extend more policy).policy = .permissive := by
          rcases hpolicy with rfl | rfl
          · exact hstrict
          · rfl
        rw [hstrict] at h
        cases h
        rw [hsame]
        rfl

/-- What a machine has failed on if a larger one does not fail there: an access
outside its memory, or a byte that only its policy refuses. -/
theorem advance_extend_of_error {e : Fault} {done : Step} {m₁ : Machine}
    (h : advance m = .error e m')
    (hextend : advance (m.extend more policy) = .ok done m₁) :
    e.Avoidable m.policy policy := by
  cases hcode : m.memory.readByte m.ip.toNat with
  | error cause =>
    rw [advance_of_no_code hcode] at h
    cases h
    trivial
  | ok code =>
    rw [advance_of_code hcode] at h
    rw [advance_of_code (code_extend hcode)] at hextend
    cases hop : Opcode.ofByte? code with
    | some op =>
      rw [hop] at h
      have hexecute :
          Widens more policy (execute op >>= fun _ => pure (Step.executed op)) :=
        (widens_execute op).bind fun _ => widens_pure _
      obtain ⟨cause, rfl⟩ := hexecute.of_error h
      trivial
    | none =>
      simp only [hop] at h hextend
      cases hstrict : m.policy with
      | permissive =>
        rw [hstrict] at h
        cases h
      | strict =>
        rw [hstrict] at h
        cases h
        refine ⟨rfl, ?_⟩
        rcases (m.extend more policy).policy_eq with hlenient | hlenient
        · exact hlenient
        · rw [hlenient] at hextend
          cases hextend

/-- A step that succeeds carries over, and with it the record that it adds. -/
theorem step_extend {done : Step}
    (hpolicy : policy = m.policy ∨ policy = .permissive)
    (h : step m = .ok done m') :
    step (m.extend more policy) = .ok done (m'.extend more policy) := by
  have hstate := running_of_step h
  have hlarger : (m.extend more policy).state = .running := hstate
  cases hadvance : advance m with
  | error e m₁ =>
    rw [step_of_advance_error hstate hadvance] at h
    cases h
  | ok done' m₁ =>
    rw [step_of_advance_ok hstate hadvance] at h
    cases h
    exact step_of_advance_ok hlarger (advance_extend hpolicy hadvance)

/-- A step that fails here and not there has failed on the size or on the policy. -/
theorem step_extend_of_error {e : Fault} {done : Step} {m₁ : Machine}
    (h : step m = .error e m')
    (hextend : step (m.extend more policy) = .ok done m₁) :
    e.Avoidable m.policy policy := by
  have hlarger := running_of_step hextend
  have hstate : m.state = .running := hlarger
  cases hadvance : advance m with
  | ok done' m₂ =>
    rw [step_of_advance_ok hstate hadvance] at h
    cases h
  | error e' m₂ =>
    rw [step_of_advance_error hstate hadvance] at h
    cases h
    cases hadvance' : advance (m.extend more policy) with
    | error e' m₃ =>
      rw [step_of_advance_error hlarger hadvance'] at hextend
      cases hextend
    | ok done' m₃ => exact advance_extend_of_error hadvance hadvance'

/-! ### Runs -/

/-- The point of a run at which a larger machine is when the machine is at this
one. -/
def extendRow (more : Array UInt8) (policy : OpcodePolicy) (row : Step × Machine) :
    Step × Machine :=
  (row.1, row.2.extend more policy)

/-- Steps in a row carry over one by one. -/
theorem path_extend {path : List (Step × Machine)}
    (hpolicy : policy = m.policy ∨ policy = .permissive) (h : Path m path m') :
    Path (m.extend more policy) (path.map (extendRow more policy))
      (m'.extend more policy) := by
  induction h with
  | nil m => exact .nil _
  | cons hstep _ ih =>
    have hsame := (advanced_of_step hstep).policy
    exact .cons (step_extend hpolicy hstep) (ih (by rwa [hsame]))

/-- A machine with more memory, and with the same policy or the permissive one,
takes the steps of the machine itself and reports the same of each.  Behind each
it differs from the machine by the bytes that were added, which are as they
were, and by the policy.  Where the machine fails and the larger one does not,
an access did not fit or a byte that is no opcode was refused. -/
theorem larger_machine_follows {path : List (Step × Machine)}
    (hpolicy : policy = m.policy ∨ policy = .permissive) (h : Path m path m') :
    Path (m.extend more policy) (path.map (extendRow more policy))
      (m'.extend more policy) ∧
      ∀ e done m₁ m₂, step m' = .error e m₁ →
        step (m'.extend more policy) = .ok done m₂ →
        e.Avoidable m.policy policy := by
  refine ⟨path_extend hpolicy h, ?_⟩
  intro e done m₁ m₂ hfail hextend
  rw [← h.policy_eq]
  exact step_extend_of_error hfail hextend

/-- A machine with room for a push behind the code of the push, and no more. -/
def tightlyFilled : Machine :=
  fresh ((Memory.zeroed 5).overwrite 0 [0x17, 0x12, 0x34]) .strict

/-- The machine behind the push. -/
def entirelyFilled : Machine :=
  { (tightlyFilled.setRegister .ip 3).pushed 0x1234 with
    cycles := 1
    lastOpcode := some .pushLit }

theorem step_tightlyFilled :
    step tightlyFilled = .ok (.executed .pushLit) entirelyFilled := by
  rfl

/-- With three bytes more, the push writes the same two bytes of memory. -/
theorem push_in_larger_memory :
    step (tightlyFilled.extend #[1, 2, 3] .permissive) =
      .ok (.executed .pushLit) (entirelyFilled.extend #[1, 2, 3] .permissive) := by
  have hpath :
      Path tightlyFilled [(.executed .pushLit, entirelyFilled)] entirelyFilled :=
    .cons step_tightlyFilled (.nil _)
  cases (larger_machine_follows (.inr rfl) hpath).1 with
  | cons hstep hrest => exact hstep

end Machine

end StackMachine
