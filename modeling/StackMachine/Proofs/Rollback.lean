import StackMachine.Proofs.Pushes

/-!
# A step that fails

A step puts back the registers and the frame count when it fails, and nothing
else.  So that nothing of a failed step remains, no opcode may write to memory
before the last thing in it that can fail.

## Main statements

* `Machine.failsUndoable_execute` — no opcode has written to memory when it
  fails
* `Machine.step_of_error` — the machine that a failed step leaves
* `Machine.failed_step_changes_only_state` — a failed step leaves all but the
  state as it was, and fails again in the same way when the state is put back

## Design notes

**Where memory is written.**  Only a store, a push and a call write to memory.
The first two are the last thing in their opcode that can fail; a call has
tested its ten slots before it writes to any of them, and `Machine.call_of_room`
says that it cannot fail after the test.
-/

namespace StackMachine.Machine

open StackMachine.Action

/-- A word is stored as a whole or not at all. -/
theorem failsUndoable_storeWord (address value : UInt16) :
    FailsUndoable (storeWord address value) where
  of_error h := by
    rw [storeWord_eq] at h
    split at h <;> cases h
    exact .refl _

/-- The write comes first in a push, so where it fails nothing has been done. -/
theorem failsUndoable_push (value : UInt16) : FailsUndoable (push value) where
  of_error {m m' e} h := by
    by_cases hfits : m.sp.toNat + 2 ≤ m.memory.size
    · rw [push_eq_pushed value hfits] at h
      cases h
    · rw [push_of_lt value (Nat.not_le.1 hfits)] at h
      cases h
      exact .refl _

/-- A call tests for room before its first push.  A call that has begun to
write does not fail. -/
theorem failsUndoable_call (target : UInt16) : FailsUndoable (call target) where
  of_error {m m' e} h := by
    cases hroom : m.checkRoom frameWords with
    | ok room =>
      rw [call_of_room target hroom] at h
      cases h
    | error cause =>
      rw [call_of_no_room target hroom] at h
      cases h
      exact .refl _

/-- No opcode has written to memory when it fails.  The instructions that write
do so last, or test before. -/
theorem failsUndoable_execute (op : Opcode) : FailsUndoable (execute op) := by
  cases op with
  | movLitReg =>
    refine .bind confined_fetchWord fun literal => ?_
    refine .bind confined_fetchRegister fun target => ?_
    exact (confined_writeRegister target literal).failsUndoable
  | movRegReg =>
    refine .bind confined_fetchRegister fun source => ?_
    refine .bind confined_fetchRegister fun target => ?_
    refine .bind (confined_readRegister source) fun value => ?_
    exact (confined_writeRegister target value).failsUndoable
  | movRegMem =>
    refine .bind confined_fetchRegister fun source => ?_
    refine .bind confined_fetchWord fun address => ?_
    refine .bind (confined_readRegister source) fun value => ?_
    exact failsUndoable_storeWord address value
  | movMemReg =>
    refine .bind confined_fetchWord fun address => ?_
    refine .bind confined_fetchRegister fun target => ?_
    refine .bind (confined_loadWord address) fun value => ?_
    exact (confined_writeRegister target value).failsUndoable
  | addRegReg =>
    refine .bind confined_fetchByte fun a => ?_
    refine .bind confined_fetchByte fun b => ?_
    refine .bind (confined_registerAt a) fun left => ?_
    refine .bind (confined_registerAt b) fun right => ?_
    exact (confined_writeRegister .acc (left + right)).failsUndoable
  | jmpNotEq =>
    refine .bind confined_fetchWord fun literal => ?_
    refine .bind confined_fetchWord fun address => ?_
    refine .bind (confined_readRegister .acc) fun acc => ?_
    split
    · exact (confined_writeRegister .ip address).failsUndoable
    · exact (confined_pure _).failsUndoable
  | pushLit => exact .bind confined_fetchWord failsUndoable_push
  | pushReg =>
    refine .bind confined_fetchRegister fun source => ?_
    exact .bind (confined_readRegister source) failsUndoable_push
  | pop =>
    refine .bind confined_fetchRegister fun target => ?_
    refine .bind confined_pop fun value => ?_
    exact (confined_writeRegister target value).failsUndoable
  | calLit => exact .bind confined_fetchWord failsUndoable_call
  | calReg =>
    refine .bind confined_fetchRegister fun source => ?_
    exact .bind (confined_readRegister source) failsUndoable_call
  | ret => exact confined_ret.failsUndoable
  | hlt =>
    -- A halt writes the state, so it is not confined; but it does not fail.
    exact ⟨fun h => by cases h⟩

/-- So no attempt at a step has either, wherever in the fetch or the
execution it fails. -/
theorem failsUndoable_advance : FailsUndoable advance := by
  refine .bind (confined_readRegister .ip) fun address => ?_
  refine .bind confined_fetchByte fun byte => ?_
  cases Opcode.ofByte? byte with
  | some op =>
    exact (failsUndoable_execute op).bind_of_never_fails fun _ m => ⟨_, m, rfl⟩
  | none =>
    refine .bind confined_get fun m₀ => ?_
    cases m₀.policy with
    | permissive => exact (confined_pure _).failsUndoable
    | strict => exact ⟨fun h => by cases h; exact .refl _⟩

/-- A step that fails puts back the registers and the frame count of before, and
nothing else can have changed.  So the machine is as it was, but faulted. -/
theorem step_of_advance_error {m m' : Machine} {e : Fault}
    (hstate : m.state = .running) (h : advance m = .error e m') :
    step m = .error e { m with state := .faulted } := by
  -- The step puts back what `Machine.undone` does, and that is all that can
  -- have changed.
  have hundo : m'.undone m = m := failsUndoable_advance.of_error h
  rw [step_running hstate, h]
  calc EStateM.Result.error e
        { m' with bank := m.bank, frameBytes := m.frameBytes, state := .faulted }
      = .error e { m'.undone m with state := .faulted } := rfl
    _ = .error e { m with state := .faulted } := by rw [hundo]

/-- A step that succeeds adds the record of itself, and nothing else, to what
the attempt has done. -/
theorem step_of_advance_ok {m m' : Machine} {done : Step}
    (hstate : m.state = .running) (h : advance m = .ok done m') :
    step m = .ok done { m' with
      cycles := m'.cycles + 1
      lastOpcode := done.opcode?.or m'.lastOpcode } := by
  rw [step_running hstate, h]

/-- A step of a running machine that fails leaves the machine as it was, but
faulted.  The memory that is kept is the old one, as no attempt that fails
has written to it. -/
theorem step_of_error {m m' : Machine} {e : Fault} (hstate : m.state = .running)
    (h : step m = .error e m') : m' = { m with state := .faulted } := by
  cases hrun : advance m with
  | ok done m₁ =>
    rw [step_of_advance_ok hstate hrun] at h
    cases h
  | error e₁ m₁ =>
    rw [step_of_advance_error hstate hrun] at h
    cases h
    rfl

/-- A failed step is all or nothing: a running machine is left as it was, but
faulted, so that the same step would fail in the same way again.  One that is
not running is refused the step and is not changed. -/
theorem failed_step_changes_only_state {m m' : Machine} {e : Fault}
    (h : step m = .error e m') :
    (m.state = .running →
      m' = { m with state := .faulted } ∧ m'.ip = m.ip ∧
        step { m' with state := .running } = .error e m') ∧
      (m.state ≠ .running → e = .notRunning m.state ∧ m' = m) := by
  constructor
  · intro hstate
    have hm' := step_of_error hstate h
    have hagain : { m' with state := .running } = m := by rw [hm', ← hstate]
    exact ⟨hm', by rw [hm']; rfl, by rw [hagain, h]⟩
  · intro hstate
    rw [step_not_running hstate] at h
    cases h
    exact ⟨rfl, rfl⟩

/-- A machine about to pop a word into a register off an empty stack. -/
def emptyStack : Machine :=
  fresh ((Memory.zeroed 32).overwrite 0 [0x1a, 0x02]) .strict

theorem step_emptyStack :
    step emptyStack = .error (.memory ⟨32, 2, 32⟩)
      { emptyStack with state := .faulted } := by
  have hcode :
      fetchByte emptyStack = .ok 0x1a (emptyStack.setRegister .ip 1) := by cbv
  have hselector : fetchByte (emptyStack.setRegister .ip 1) =
      .ok 2 (emptyStack.setRegister .ip 2) := by cbv
  have htarget : fetchRegister (emptyStack.setRegister .ip 1) =
      .ok .r1 (emptyStack.setRegister .ip 2) :=
    bind_of_ok hselector _
  have hslot : (emptyStack.setRegister .ip 2).memory.readWord
      ((emptyStack.setRegister .ip 2).sp + 2).toNat = .error ⟨32, 2, 32⟩ := by cbv
  have hpop : pop (emptyStack.setRegister .ip 2) =
      .error (.memory ⟨32, 2, 32⟩) (emptyStack.setRegister .ip 2).popped := by
    rw [pop_eq, hslot]
    rfl
  have hexecute : execute .pop (emptyStack.setRegister .ip 1) =
      .error (.memory ⟨32, 2, 32⟩) (emptyStack.setRegister .ip 2).popped :=
    (bind_of_ok htarget _).trans (bind_of_error hpop _)
  have hadvance : advance emptyStack =
      .error (.memory ⟨32, 2, 32⟩) (emptyStack.setRegister .ip 2).popped := by
    unfold advance
    rw [bind_of_ok (readRegister_apply .ip emptyStack), bind_of_ok hcode]
    exact bind_of_error hexecute _
  exact step_of_advance_error rfl hadvance

/-- The pop moves both pointers and the frame count before it fails, and leaves
nothing of this behind. -/
theorem failed_pop_changes_only_state :
    { emptyStack with state := .faulted }.ip = emptyStack.ip ∧
      step { { emptyStack with state := .faulted } with state := .running } =
        .error (.memory ⟨32, 2, 32⟩) { emptyStack with state := .faulted } :=
  ((failed_step_changes_only_state step_emptyStack).1 rfl).2

end StackMachine.Machine
