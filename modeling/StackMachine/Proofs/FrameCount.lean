import StackMachine.Proofs.Flow

/-!
# What the frame count counts

The frame count is to say how far the stack pointer has come down from the frame
pointer, so that a call can write down the way back for its return.  Every
operation of a machine keeps the two apart by the same distance, but for calls,
which make it exact, and returns, which leave it one word off.

## Main definitions

* `Machine.skew` — by how much the count is off
* `Boundary` — an instruction that starts a new count
* `Instruction.target?` — the register that an instruction names as its
  destination
* `Machine.Reached` — the machines that come about without a write to a pointer
  into the stack

## Main statements

* `Machine.skew_of_ret` — a return leaves a word too many, whatever it finds in
  memory
* `Machine.skew_of_apply`, `Machine.skew_of_step` — one instruction, and one
  step
* `Machine.frame_count_exact` — the skew of a machine follows from the last call
  or return

## Design notes

**The count of a return** is the frame size that it pops, and the frame pointer
moves up by the same word.  So it does not matter what this word is: all pops
that come after it are counted and its own is not, which is where the one word
comes from.

**Failures.**  A step that fails puts the registers and the count back together.
A pop that fails outside of a step has moved the stack pointer and the count,
and by the same amount.
-/

namespace StackMachine

/-- An instruction that starts a new frame count. -/
inductive Boundary where
  /-- A subroutine is entered. -/
  | call
  /-- A subroutine returns. -/
  | ret
deriving DecidableEq, Repr

/-- The boundary that an opcode is. -/
def Opcode.boundary? : Opcode → Option Boundary
  | calLit | calReg => some .call
  | ret => some .ret
  | movLitReg | movRegReg | movRegMem | movMemReg | addRegReg | jmpNotEq |
      pushLit | pushReg | pop
  | hlt => none

/-- The register that an instruction names as its destination. -/
def Instruction.target? : Instruction → Option Register
  | movLitReg _ target | movRegReg _ target | movMemReg _ target | pop target =>
    some target
  | movRegMem .. | addRegReg .. | jmpNotEq .. | pushLit _ | pushReg _ |
      calLit _ | calReg _ | ret
  | hlt => none

/-- An instruction whose destination, if it names one, is no pointer into the
stack. -/
def Instruction.SparesPointers (i : Instruction) : Prop :=
  ∀ r ∈ i.target?, r ≠ .sp ∧ r ≠ .fp

instance (i : Instruction) : Decidable i.SparesPointers :=
  inferInstanceAs (Decidable (∀ r ∈ i.target?, r ≠ .sp ∧ r ≠ .fp))

/-- The machine that an action leaves, whether or not it succeeds. -/
def Action.leaves {ε α : Type} (action : Action ε α) (m : Machine) : Machine :=
  match action m with
  | .ok _ m' | .error _ m' => m'

/-- What a sequence leaves is what its second part leaves, or its first where
that fails.  The count is looked at after failures as well, so both count. -/
theorem Action.leaves_bind {ε α β : Type} (action : Action ε α)
    (next : α → Action ε β) (m : Machine) :
    (action >>= next).leaves m =
      match action m with
      | .ok a m' => (next a).leaves m'
      | .error _ m' => m' := by
  unfold leaves
  rw [bind_apply]
  cases action m <;> rfl

namespace Machine

open StackMachine.Action (leaves leaves_bind bind_of_ok bind_eq_ok)

/-- Where the stack pointer would be without the words that are counted. -/
def reach (m : Machine) : UInt16 := m.sp + m.frameBytes

/-- By how much the frame count misses the frame pointer. -/
def skew (m : Machine) : UInt16 := m.reach - m.fp

variable {m m' : Machine}

/-! ### Pushes, pops and writes to other registers -/

/-- How far the stack reaches is a matter of its pointer and the count. -/
theorem reach_setRegister {r : Register} (value : UInt16) (hsp : r ≠ .sp) :
    (m.setRegister r value).reach = m.reach := by
  have hsame : (m.setRegister r value).sp = m.sp :=
    register_setRegister_of_ne m value hsp
  rw [reach, hsame]
  rfl

/-- A push moves the pointer down by what it counts. -/
theorem reach_pushed (value : UInt16) : (m.pushed value).reach = m.reach := by
  have hcount : (m.pushed value).frameBytes = m.frameBytes + 2 := rfl
  rw [reach, reach, sp_pushed, hcount]
  grind

/-- A pop moves it up again by what it takes off the count. -/
theorem reach_popped : m.popped.reach = m.reach := by
  have hcount : m.popped.frameBytes = m.frameBytes - 2 := rfl
  rw [reach, reach, sp_popped, hcount]
  grind

/-- The skew is a matter of the two pointers and the count. -/
theorem skew_setRegister {r : Register} (value : UInt16) (hsp : r ≠ .sp)
    (hfp : r ≠ .fp) :
    (m.setRegister r value).skew = m.skew := by
  have hsame : (m.setRegister r value).fp = m.fp :=
    register_setRegister_of_ne m value hfp
  rw [skew, reach_setRegister value hsp, hsame, skew]

/-- A push keeps the skew, even where the pointer wraps around. -/
theorem skew_pushed (value : UInt16) : (m.pushed value).skew = m.skew := by
  have hsame : (m.pushed value).fp = m.fp := register_pushed m value (by decide)
  rw [skew, reach_pushed, hsame, skew]

/-- So does a pop. -/
theorem skew_popped : m.popped.skew = m.skew := by
  have hsame : m.popped.fp = m.fp := register_popped m (by decide)
  rw [skew, reach_popped, hsame, skew]

/-! ### Fresh machines, calls and returns -/

/-- Two pointers at one place and nothing counted. -/
theorem skew_eq_zero (hpointers : m.sp = m.fp) (hcount : m.frameBytes = 0) :
    m.skew = 0 := by
  rw [skew, reach, hpointers, hcount, UInt16.add_zero, UInt16.sub_self]

theorem skew_fresh (memory : Memory) (policy : OpcodePolicy) :
    (fresh memory policy).skew = 0 :=
  skew_eq_zero ((sp_fresh memory policy).trans (fp_fresh memory policy).symm) rfl

/-- A machine that has been reset has nothing on its stack and nothing counted. -/
theorem skew_reset (m : Machine) : m.reset.skew = 0 := by
  have hsp : m.reset.sp = stackTop m.memory :=
    (Bank.get_set_of_ne _ _ (by decide)).trans (Bank.get_set_self ..)
  have hfp : m.reset.fp = stackTop m.memory := Bank.get_set_self ..
  exact skew_eq_zero (hsp.trans hfp.symm) rfl

/-- A subroutine starts with a count that is exact.  The call has set the frame
pointer to the stack pointer and the count to zero. -/
theorem skew_of_call {target : UInt16} (h : call target m = .ok () m') :
    m'.skew = 0 := by
  obtain ⟨-, rfl⟩ := call_eq_ok h
  exact skew_eq_zero ((sp_entered _ target).trans (fp_entered _ target).symm) rfl

/-- An action that, when it succeeds, has counted every word that it has moved
the stack pointer over. -/
structure KeepsReach {α : Type} (action : Action Fault α) : Prop where
  /-- The count makes up for the stack pointer. -/
  of_ok : ∀ {m m' : Machine} {a : α}, action m = .ok a m' → m'.reach = m.reach

section KeepsReach

variable {α β : Type}

/-- Actions that keep the reach can be put in sequence.  A return is such a
sequence, up to the frame pointer that it sets at its end. -/
theorem KeepsReach.bind {action : Action Fault α} {next : α → Action Fault β}
    (h : KeepsReach action) (hnext : ∀ a, KeepsReach (next a)) :
    KeepsReach (action >>= next) where
  of_ok hrun := by
    obtain ⟨a, m₁, hfirst, hrest⟩ := bind_eq_ok.1 hrun
    rw [(hnext a).of_ok hrest, h.of_ok hfirst]

theorem keepsReach_pure (a : α) : KeepsReach (pure a) where
  of_ok hrun := by
    cases hrun
    rfl

theorem keepsReach_forM {visit : α → Action Fault PUnit} (items : List α)
    (h : ∀ a ∈ items, KeepsReach (visit a)) : KeepsReach (items.forM visit) := by
  induction items with
  | nil => exact keepsReach_pure _
  | cons a items ih =>
    refine (h a List.mem_cons_self).bind fun _ => ih ?_
    exact fun b hb => h b (List.mem_cons_of_mem a hb)

/-- A pop keeps the reach also where it fails, as pointer and count have
both moved by then. -/
theorem keepsReach_pop : KeepsReach pop where
  of_ok hrun := by
    obtain ⟨-, rfl⟩ := pop_eq_ok hrun
    exact reach_popped

/-- To fill a register other than the stack pointer keeps the reach. -/
theorem keepsReach_writeRegister {r : Register} (value : UInt16) (hsp : r ≠ .sp) :
    KeepsReach (writeRegister r value) where
  of_ok hrun := by
    cases hrun
    exact reach_setRegister value hsp

theorem keepsReach_drop (n : Nat) : KeepsReach (drop n) := by
  induction n with
  | zero => exact keepsReach_pure _
  | succ n ih => exact keepsReach_pop.bind fun _ => ih

end KeepsReach

/-- A return leaves a word too many in the count, whatever frame it finds.  It
takes the size off the stack before it starts to count with that size, so this
word is never counted off. -/
theorem skew_of_ret (h : ret m = .ok () m') : m'.skew = 2 := by
  unfold ret at h
  rw [bind_of_ok (readRegister_apply .fp m),
    bind_of_ok (writeRegister_apply ..)] at h
  obtain ⟨frameSize, m₁, hpop, h⟩ := bind_eq_ok.1 h
  obtain ⟨-, rfl⟩ := pop_eq_ok hpop
  -- The frame size is the count from here on, so that its own pop is forgotten.
  obtain ⟨_, m₂, hsize, h⟩ := bind_eq_ok.1 h
  have hstart : m₂.reach = m.fp + 2 + frameSize := by
    cases hsize
    have hbase : (m.setRegister .sp m.fp).sp = m.fp :=
      register_setRegister_self m .sp m.fp
    exact congrArg (· + frameSize) ((sp_popped _).trans (congrArg (· + 2) hbase))
  obtain ⟨returnAddress, m₃, haddress, h⟩ := bind_eq_ok.1 h
  obtain ⟨_, m₄, hip, h⟩ := bind_eq_ok.1 h
  obtain ⟨_, m₅, hgeneral, h⟩ := bind_eq_ok.1 h
  obtain ⟨count, m₆, hcount, h⟩ := bind_eq_ok.1 h
  obtain ⟨_, m₇, hdrop, hfp⟩ := bind_eq_ok.1 h
  have hrestore : KeepsReach (Register.general.reverse.forM fun r => do
      writeRegister r (← pop)) := by
    refine keepsReach_forM _ fun r hr => keepsReach_pop.bind fun word => ?_
    refine keepsReach_writeRegister word ?_
    rintro rfl
    revert hr
    decide
  have hreach : m₇.reach = m.fp + 2 + frameSize :=
    calc m₇.reach = m₆.reach := (keepsReach_drop _).of_ok hdrop
      _ = m₅.reach := keepsReach_pop.of_ok hcount
      _ = m₄.reach := hrestore.of_ok hgeneral
      _ = m₃.reach := (keepsReach_writeRegister _ (by decide)).of_ok hip
      _ = m₂.reach := keepsReach_pop.of_ok haddress
      _ = m.fp + 2 + frameSize := hstart
  cases hfp
  have hsame : (m₇.setRegister .fp (m.fp + frameSize)).fp = m.fp + frameSize :=
    register_setRegister_self ..
  show (m₇.setRegister .fp (m.fp + frameSize)).skew = 2
  rw [skew, reach_setRegister _ (by decide), hreach, hsame]
  grind

/-! ### Instructions and steps -/

/-- By how much the count is off after an opcode, if it was off by `before`. -/
def skewAfter (before : UInt16) : Option Boundary → UInt16
  | none => before
  | some .call => 0
  | some .ret => 2

/-- An instruction without a pointer into the stack as its destination
leaves the count as it is, or starts a new one.  Calls and returns are the
ones that start a new one. -/
theorem skew_of_apply {i : Instruction} (h : m.apply i = .ok () m')
    (hspares : i.SparesPointers) :
    m'.skew = skewAfter m.skew i.opcode.boundary? := by
  cases i with
  | movLitReg literal target =>
    obtain ⟨hsp, hfp⟩ := hspares target rfl
    cases h
    exact skew_setRegister _ hsp hfp
  | movRegReg source target =>
    obtain ⟨hsp, hfp⟩ := hspares target rfl
    cases h
    exact skew_setRegister _ hsp hfp
  | movRegMem source address =>
    simp only [apply] at h
    split at h <;> cases h
    rfl
  | movMemReg address target =>
    obtain ⟨hsp, hfp⟩ := hspares target rfl
    simp only [apply] at h
    split at h <;> cases h
    exact skew_setRegister _ hsp hfp
  | addRegReg a b =>
    simp only [apply] at h
    split at h
    · cases h
    · split at h <;> cases h
      exact skew_setRegister _ (by decide) (by decide)
  | jmpNotEq literal address =>
    cases h
    show (if literal ≠ m.acc then m.setRegister .ip address else m).skew = m.skew
    split
    · exact skew_setRegister _ (by decide) (by decide)
    · rfl
  | pushLit literal =>
    obtain ⟨-, rfl⟩ := push_eq_ok h
    exact skew_pushed literal
  | pushReg source =>
    obtain ⟨-, rfl⟩ := push_eq_ok h
    exact skew_pushed _
  | pop target =>
    obtain ⟨hsp, hfp⟩ := hspares target rfl
    simp only [apply] at h
    split at h
    · next word m₁ hpop =>
      cases h
      obtain ⟨-, rfl⟩ := pop_eq_ok hpop
      exact (skew_setRegister _ hsp hfp).trans skew_popped
    · cases h
  | calLit address => exact skew_of_call h
  | calReg source => exact skew_of_call h
  | ret => exact skew_of_ret h
  | hlt =>
    cases h
    rfl

/-- The instruction that the next step reads, if the machine is running
and there is one. -/
def next? (m : Machine) : Option Instruction :=
  if m.state = .running then
    match m.memory.itemAt m.ip with
    | .ok (.instruction i, _) => some i
    | .ok (.data _, _) | .error _ => none
  else none

/-- The boundary that the next step will be, if it succeeds and is one. -/
def boundary? (m : Machine) : Option Boundary :=
  match step m with
  | .ok done _ => done.opcode?.bind Opcode.boundary?
  | .error .. => none

/-- A running machine at an instruction is about to execute it. -/
theorem next?_of_itemAt {i : Instruction} {next : UInt16}
    (hstate : m.state = .running)
    (hitem : m.memory.itemAt m.ip = .ok (.instruction i, next)) :
    m.next? = some i := by
  rw [next?, if_pos hstate, hitem]

/-- A step, whether it succeeds or not, leaves the count as it is or starts a
new one.  A failed step has put everything back. -/
theorem skew_of_step (hspares : ∀ i ∈ m.next?, i.SparesPointers) :
    (leaves step m).skew = skewAfter m.skew m.boundary? := by
  have hfetched : ∀ next : UInt16, (m.setRegister .ip next).skew = m.skew :=
    fun next => skew_setRegister next (by decide) (by decide)
  by_cases hstate : m.state = .running
  · cases hstep : step m with
    | ok done m' =>
      simp only [leaves, boundary?, hstep]
      cases done with
      | executed op =>
        obtain ⟨i, m₁, rfl, hitem, happly, rfl⟩ := step_executed hstate hstep
        have hskew :=
          skew_of_apply happly (hspares i (next?_of_itemAt hstate hitem))
        rw [hfetched] at hskew
        exact hskew
      | skipped byte =>
        obtain rfl := step_skipped_eq hstep
        exact hfetched _
    | error e m' =>
      obtain rfl := step_of_error hstate hstep
      simp only [leaves, boundary?, hstep]
      rfl
  · simp only [leaves, boundary?, step_not_running hstate]
    rfl

/-! ### Other operations -/

theorem skew_of_push (value : UInt16) : (leaves (push value) m).skew = m.skew := by
  rcases Nat.lt_or_ge m.memory.size (m.sp.toNat + 2) with hfits | hfits
  · rw [leaves, push_of_lt value hfits]
  · rw [leaves, push_eq_pushed value hfits]
    exact skew_pushed value

theorem skew_of_pop : (leaves pop m).skew = m.skew := by
  refine Eq.trans ?_ skew_popped
  rw [leaves, pop_eq]
  cases m.memory.readWord (m.sp + 2).toNat <;> rfl

/-- To load bytes does not touch the count. -/
theorem skew_of_load (origin : UInt16) (bytes : List UInt8) :
    (leaves (load origin bytes) m).skew = m.skew := by
  unfold leaves load
  cases m.memory.check origin.toNat bytes.length <;> rfl

theorem skew_of_loadProgram (p : Program) :
    (leaves (loadProgram p) m).skew = m.skew := by
  obtain ⟨segments⟩ := p
  induction segments generalizing m with
  | nil => rfl
  | cons segment segments ih =>
    have hfirst := skew_of_load (m := m) segment.origin segment.bytes.toList
    show (leaves (load segment.origin segment.bytes.toList >>= fun _ =>
      loadProgram ⟨segments⟩) m).skew = _
    rw [leaves_bind]
    rw [leaves] at hfirst
    cases hload : load segment.origin segment.bytes.toList m with
    | ok done m₁ =>
      rw [hload] at hfirst
      exact ih.trans hfirst
    | error e m₁ =>
      rw [hload] at hfirst
      exact hfirst

/-! ### Everything that a machine can come to -/

/-- A machine that has come about since it was fresh or reset, with the last
call or return in a step that succeeded.  No instruction and no direct write
went to a pointer into the stack. -/
inductive Reached : Machine → Option Boundary → Prop
  /-- Construction. -/
  | fresh (memory : Memory) (policy : OpcodePolicy) :
      Reached (fresh memory policy) none
  /-- A reset of any machine. -/
  | reset (m : Machine) : Reached m.reset none
  /-- A step, which may execute, skip or fail. -/
  | step {m : Machine} {last : Option Boundary} (h : Reached m last)
      (hspares : ∀ i ∈ m.next?, i.SparesPointers) : Reached (leaves step m)
      (m.boundary?.or last)
  /-- A push from outside, which may fail. -/
  | push {m : Machine} {last : Option Boundary} (h : Reached m last)
      (value : UInt16) :
      Reached (leaves (push value) m) last
  /-- A pop from outside, which may fail. -/
  | pop {m : Machine} {last : Option Boundary} (h : Reached m last) :
      Reached (leaves pop m) last
  /-- Bytes are copied into memory, if they fit. -/
  | load {m : Machine} {last : Option Boundary} (h : Reached m last)
      (origin : UInt16)
      (bytes : List UInt8) : Reached (leaves (load origin bytes) m) last
  /-- Segments are copied into memory, up to the first that does not fit. -/
  | loadProgram {m : Machine} {last : Option Boundary} (h : Reached m last)
      (p : Program) :
      Reached (leaves (loadProgram p) m) last
  /-- A word goes to another register. -/
  | set {m : Machine} {last : Option Boundary} (h : Reached m last)
      {r : Register} (value : UInt16)
      (hsp : r ≠ .sp) (hfp : r ≠ .fp) : Reached (m.setRegister r value) last

/-- The frame count says exactly how far the stack pointer is from the
frame pointer, unless the last call or return was a return: then it
says two bytes more. -/
theorem frame_count_exact {last : Option Boundary} (h : Reached m last) :
    m.sp + m.frameBytes - m.fp = if last = some .ret then 2 else 0 := by
  have hskew : m.skew = skewAfter 0 last := by
    induction h with
    | fresh memory policy => exact skew_fresh memory policy
    | reset m => exact skew_reset m
    | @step m last h hspares ih =>
      rw [skew_of_step hspares, ih]
      cases m.boundary? with
      | none => rfl
      | some b => cases b <;> rfl
    | push h value ih => rw [skew_of_push, ih]
    | pop h ih => rw [skew_of_pop, ih]
    | load h origin bytes ih => rw [skew_of_load, ih]
    | loadProgram h p ih => rw [skew_of_loadProgram, ih]
    | set h value hsp hfp ih => rw [skew_setRegister value hsp hfp, ih]
  refine hskew.trans ?_
  rcases last with - | - | - <;> rfl

/-- A machine whose program calls a subroutine that returns at once. -/
def calling : Machine :=
  fresh ((Memory.zeroed 64).overwrite 0 [0x17, 0, 0, 0x5e, 0, 6, 0x60]) .strict

/-- After a push, the call and its return. -/
def returned : Machine := leaves step (leaves step (leaves step calling))

theorem reached_returned : Reached returned (some .ret) := by
  have hpush : calling.boundary? = none := by decide +kernel
  have hcall : (leaves step calling).boundary? = some .call := by decide +kernel
  have hret : (leaves step (leaves step calling)).boundary? =
      some .ret := by decide +kernel
  have hfresh : Reached calling none := .fresh _ _
  have hpushed := hfresh.step (by decide +kernel)
  have hcalled := hpushed.step (by decide +kernel)
  have hreturned := hcalled.step (by decide +kernel)
  rw [hpush, hcall, hret] at hreturned
  exact hreturned

/-- The program has nothing on the stack again, and two bytes are counted. -/
theorem count_after_return : returned.sp + returned.frameBytes - returned.fp = 2 :=
  frame_count_exact reached_returned

end Machine

end StackMachine
