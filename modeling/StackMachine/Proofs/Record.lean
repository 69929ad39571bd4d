import StackMachine.Proofs.Flow

/-!
# The record that a machine keeps

Besides its registers and its memory a machine has a policy and a record of its
run: whether it goes on, how many steps have succeeded, and which opcode was
executed last.  Instructions do not touch any of this, but for a halt; the step
that executes them does.

## Main definitions

* `Machine.SameRecord` — a machine whose record, policy and size of memory are
  those of another
* `Machine.Advanced` — what a step that succeeds leaves of the record

## Main statements

* `Machine.sameRecord_of_apply` — an instruction other than a halt leaves the
  record as it is
* `Machine.advanced_of_step` — the record after a step
* `Machine.step_error_eq` — the machine after a step that fails
* `Machine.create_eq`, `Machine.withMemory_eq` — when a machine is built, and
  which

## Design notes

**What can be undone is not in the record.**  `Machine.Undoable` already says
that an action has changed registers and the frame count only, so for all that
writes no memory the record comes from there (`SameRecord.of_undoable`).  A push
keeps the size of the memory, and a call is pushes.
-/

namespace StackMachine.Machine

/-- The second machine has the record, the policy and the size of
memory of the first. -/
structure SameRecord (m m' : Machine) : Prop where
  /-- No byte of memory is added or removed. -/
  size : m'.memory.size = m.memory.size
  /-- The machine goes on, or not, as before. -/
  state : m'.state = m.state
  /-- No step has been counted. -/
  cycles : m'.cycles = m.cycles
  /-- Bytes that are no opcode are treated as before. -/
  policy : m'.policy = m.policy
  /-- No opcode has been noted. -/
  lastOpcode : m'.lastOpcode = m.lastOpcode

variable {m m' : Machine}

namespace SameRecord

theorem refl (m : Machine) : SameRecord m m := ⟨rfl, rfl, rfl, rfl, rfl⟩

theorem trans {m₁ m₂ m₃ : Machine} (h₁ : SameRecord m₁ m₂) (h₂ : SameRecord m₂ m₃) :
    SameRecord m₁ m₃ where
  size := h₂.size.trans h₁.size
  state := h₂.state.trans h₁.state
  cycles := h₂.cycles.trans h₁.cycles
  policy := h₂.policy.trans h₁.policy
  lastOpcode := h₂.lastOpcode.trans h₁.lastOpcode

/-- Registers and the frame count are not in the record.  So all that is
confined keeps the record. -/
theorem of_undoable (h : Undoable m m') : SameRecord m m' := by
  have hundone : m'.undone m = m := h
  exact ⟨congrArg (·.memory.size) hundone, congrArg (·.state) hundone,
    congrArg (·.cycles) hundone,
    congrArg (·.policy) hundone, congrArg (·.lastOpcode) hundone⟩

theorem setRegister (m : Machine) (r : Register) (value : UInt16) :
    SameRecord m (m.setRegister r value) :=
  of_undoable (undoable_of m _ m.frameBytes)

theorem pushed (m : Machine) (value : UInt16) : SameRecord m (m.pushed value) :=
  ⟨size_memory_pushed m value, rfl, rfl, rfl, rfl⟩

theorem pushedAll (m : Machine) (values : List UInt16) :
    SameRecord m (m.pushedAll values) := by
  induction values generalizing m with
  | nil => exact refl m
  | cons value values ih => exact (pushed m value).trans (ih (m.pushed value))

theorem entered (m : Machine) (target : UInt16) : SameRecord m (m.entered target) :=
  ⟨rfl, rfl, rfl, rfl, rfl⟩

/-- A call that succeeds pushes and enters, and neither is recorded. -/
theorem of_call {target : UInt16} (h : call target m = .ok () m') :
    SameRecord m m' := by
  obtain ⟨-, rfl⟩ := call_eq_ok h
  exact (pushedAll m m.frame).trans (entered _ target)

end SameRecord

/-- Only a halt writes to the record.  What else a step records, it
records by itself. -/
theorem sameRecord_of_apply {i : Instruction} (h : m.apply i = .ok () m')
    (hi : i.opcode ≠ .hlt) : SameRecord m m' := by
  cases i with
  | movLitReg literal target =>
    cases h
    exact .setRegister m target literal
  | movRegReg source target =>
    cases h
    exact .setRegister m target _
  | movRegMem source address =>
    simp only [apply] at h
    split at h
    · next memory hwrite =>
      cases h
      exact ⟨Memory.size_of_writeWord hwrite, rfl, rfl, rfl, rfl⟩
    · cases h
  | movMemReg address target =>
    simp only [apply] at h
    split at h <;> cases h
    exact .setRegister m target _
  | addRegReg a b =>
    simp only [apply] at h
    split at h
    · cases h
    · split at h <;> cases h
      exact .setRegister m .acc _
  | jmpNotEq literal address =>
    cases h
    show SameRecord m (if literal ≠ m.acc then m.setRegister .ip address else m)
    split
    · exact .setRegister m .ip address
    · exact .refl m
  | pushLit literal =>
    obtain ⟨-, rfl⟩ := push_eq_ok h
    exact .pushed m literal
  | pushReg source =>
    obtain ⟨-, rfl⟩ := push_eq_ok h
    exact .pushed m _
  | pop target =>
    simp only [apply] at h
    split at h
    · next word m₁ hpop =>
      cases h
      exact (SameRecord.of_undoable (confined_pop.of_ok hpop)).trans
        (.setRegister m₁ target word)
    · cases h
  | calLit address => exact .of_call h
  | calReg source => exact .of_call h
  | ret => exact .of_undoable (confined_ret.of_ok h)
  | hlt => exact absurd rfl hi

/-! ### Steps -/

/-- What a step that succeeds leaves of the record: the step is counted, its
opcode is noted if it has one, and after a halt the machine does not go on. -/
structure Advanced (m : Machine) (done : Step) (m' : Machine) : Prop where
  /-- No byte of memory is added or removed. -/
  size : m'.memory.size = m.memory.size
  /-- Bytes that are no opcode are treated as before. -/
  policy : m'.policy = m.policy
  /-- The step is counted. -/
  cycles : m'.cycles = m.cycles + 1
  /-- An opcode that was executed is noted, and a byte that was skipped is not. -/
  lastOpcode : m'.lastOpcode = done.opcode?.or m.lastOpcode
  /-- Only a halt stops the machine. -/
  state : m'.state = if done = .executed .hlt then .halted else .running

/-- A step that fails leaves the machine faulted if it was running, and
as it was if not. -/
theorem step_error_eq {e : Fault} (h : step m = .error e m') :
    m' = { m with state := if m.state = .running then .faulted else m.state } := by
  by_cases hstate : m.state = .running
  · rw [if_pos hstate]
    exact step_of_error hstate h
  · rw [if_neg hstate]
    rw [step_not_running hstate] at h
    cases h
    rfl

/-- A step that succeeds is counted, and its opcode is remembered if it executed
one. -/
theorem advanced_of_step {done : Step} (h : step m = .ok done m') :
    Advanced m done m' := by
  have hstate := running_of_step h
  cases done with
  | skipped byte =>
    obtain rfl := step_skipped_eq h
    exact ⟨rfl, rfl, rfl, rfl, hstate⟩
  | executed op =>
    obtain ⟨i, m₁, rfl, -, happly, rfl⟩ := step_executed hstate h
    have hfetched :
        SameRecord m (m.setRegister .ip (m.ip + UInt16.ofNat i.opcode.length)) :=
      .setRegister m .ip _
    by_cases hi : i.opcode = .hlt
    · cases i <;> cases hi
      cases happly
      exact ⟨rfl, rfl, rfl, rfl, rfl⟩
    · have hall := hfetched.trans (sameRecord_of_apply happly hi)
      refine ⟨hall.size, hall.policy, ?_, rfl, ?_⟩
      · exact congrArg (· + 1) hall.cycles
      · rw [if_neg fun hdone => hi (Step.executed.inj hdone)]
        exact hall.state.trans hstate

/-! ### Machines as they are built -/

/-- A machine of some size is built, fresh and with nothing in memory, exactly
if its memory holds at least a word and its last word can be addressed. -/
theorem create_eq (c : Config) :
    create c =
      if 2 ≤ c.memorySize ∧ c.memorySize ≤ 65536 then
        .ok (fresh (Memory.zeroed c.memorySize) c.opcodePolicy)
      else .error (.memorySize c.memorySize) := by
  unfold create Config.validate
  split <;> rfl

/-- Around a memory, the same bounds hold for its size. -/
theorem withMemory_eq (memory : Memory) (policy : OpcodePolicy) :
    withMemory memory policy =
      if 2 ≤ memory.size ∧ memory.size ≤ 65536 then .ok (fresh memory policy)
      else .error (.memorySize memory.size) := by
  unfold withMemory Config.validate
  split <;> rfl

end StackMachine.Machine
