import StackMachine.Proofs.Phases

/-!
# Where a machine goes on

Once a step is known to read an instruction first and to apply it then, what the
instruction pointer does to it can be read off the effects one by one: where the
machine goes on, what a call saves as the address to return to, and what an
instruction finds when it names the instruction pointer as a source.

## Main definitions

* `Instruction.Redirects` — an instruction after which the machine goes on
  elsewhere
* `Instruction.Delivers` — an instruction has put its source registers where it
  says

## Main statements

* `Machine.step_executed`, `Machine.step_skipped` — what a step that succeeds
  has done
* `Machine.ip_of_apply` — behind an instruction, unless it redirects
* `Machine.return_address_of_apply` — a call saves the address behind it, two
  words above the stack pointer
* `Machine.step_reads_then_applies` — all of this for one step of a running
  machine

## Design notes

**Sources are read behind the instruction.**  `Instruction.Delivers` compares
the machine after an instruction with the machine that has fetched it.  The two
agree with the machine before the step in every register but the instruction
pointer, so a source register that is the instruction pointer reads the address
behind the instruction, and every other reads what it held.
-/

namespace StackMachine

namespace Instruction

/-- The machine goes on elsewhere than behind the instruction: a word goes to
the instruction pointer, a jump is taken, or a subroutine is entered or left. -/
def Redirects (acc : UInt16) : Instruction → Prop
  | movLitReg _ target | movRegReg _ target | movMemReg _ target | pop target =>
    target = .ip
  | jmpNotEq literal _ => literal ≠ acc
  | calLit _ | calReg _ | ret => True
  | movRegMem .. | addRegReg .. | pushLit _ | pushReg _ | hlt => False

/-- What the source registers held when the instruction was fetched stands where
the instruction puts it. -/
def Delivers (fetched after : Machine) : Instruction → Prop
  | movRegReg source target => after.register target = fetched.register source
  | movRegMem source address =>
    after.memory.readWord address.toNat = .ok (fetched.register source)
  | addRegReg a b =>
    ∃ r s, Register.ofIndex? a.toNat = some r ∧ Register.ofIndex? b.toNat = some s ∧
      after.acc = fetched.register r + fetched.register s
  | pushReg source =>
    after.memory.readWord fetched.sp.toNat = .ok (fetched.register source)
  | calReg source => after.ip = fetched.register source
  | movLitReg .. | movMemReg .. | jmpNotEq .. | pushLit _ | pop _ | calLit _ |
      ret | hlt => True

end Instruction

namespace Machine

/-! ### What a step has done -/

/-- A step that executes an opcode has read an instruction with it and applied
that.  So a fact about a step is one about an instruction in memory. -/
theorem step_executed {m m' : Machine} {op : Opcode} (hstate : m.state = .running)
    (h : step m = .ok (.executed op) m') :
    ∃ i m₁, i.opcode = op ∧
      m.memory.itemAt m.ip = .ok (.instruction i, m.ip + UInt16.ofNat op.length) ∧
      (m.setRegister .ip (m.ip + UInt16.ofNat op.length)).apply i = .ok () m₁ ∧
      m' = { m₁ with cycles := m₁.cycles + 1, lastOpcode := some op } := by
  rw [step_in_phases hstate, stepInPhases] at h
  split at h
  · cases h
  · split at h <;> cases h
  · next i next hitem =>
    split at h
    · cases h
    · next m₁ happly =>
      cases h
      obtain ⟨-, -, rfl⟩ := Memory.itemAt_eq_instruction hitem
      exact ⟨i, m₁, rfl, hitem, happly, rfl⟩

/-- A step executes the instruction that it reads if that can be applied.  With
the converse above this is all that a step of an instruction is. -/
theorem step_of_instruction {m m₁ : Machine} {i : Instruction} {next : UInt16}
    (hstate : m.state = .running)
    (hitem : m.memory.itemAt m.ip = .ok (.instruction i, next))
    (happly : (m.setRegister .ip next).apply i = .ok () m₁) :
    step m = .ok (.executed i.opcode)
      { m₁ with cycles := m₁.cycles + 1, lastOpcode := some i.opcode } := by
  rw [step_in_phases hstate, stepInPhases, hitem]
  simp only [happly]

/-- A step that skips a byte has found no opcode in it. -/
theorem step_skipped {m m' : Machine} {byte : UInt8} (hstate : m.state = .running)
    (h : step m = .ok (.skipped byte) m') :
    m.memory.readByte m.ip.toNat = .ok byte ∧ Opcode.ofByte? byte = none := by
  rw [step_in_phases hstate, stepInPhases] at h
  split at h
  · cases h
  · next byte' next hitem =>
    split at h <;> cases h
    obtain ⟨hbyte, hop, -⟩ := Memory.itemAt_eq_data hitem
    exact ⟨hbyte, hop⟩
  · split at h <;> cases h

/-- What a step does with a byte that is no opcode is up to the policy: it is
skipped, or refused. -/
theorem step_of_data {m : Machine} {byte : UInt8} (hstate : m.state = .running)
    (hbyte : m.memory.readByte m.ip.toNat = .ok byte)
    (hop : Opcode.ofByte? byte = none) :
    (m.policy = .permissive →
      step m = .ok (.skipped byte)
        { m.setRegister .ip (m.ip + 1) with cycles := m.cycles + 1 }) ∧
    (m.policy = .strict →
      step m = .error (.illegalInstruction byte m.ip)
        { m with state := .faulted }) := by
  rw [step_in_phases hstate, stepInPhases, Memory.itemAt_of_data hbyte hop]
  constructor <;> intro hpolicy <;> simp only [hpolicy]

/-- Only a running machine takes a step. -/
theorem running_of_step {m m' : Machine} {done : Step} (h : step m = .ok done m') :
    m.state = .running := by
  by_contra hstate
  rw [step_not_running hstate] at h
  cases h

/-- Behind a byte that was skipped, the machine has only moved on. -/
theorem step_skipped_eq {m m' : Machine} {byte : UInt8}
    (h : step m = .ok (.skipped byte) m') :
    m' = { m.setRegister .ip (m.ip + 1) with cycles := m.cycles + 1 } := by
  have hstate := running_of_step h
  obtain ⟨hbyte, hop⟩ := step_skipped hstate h
  obtain ⟨hpermissive, hstrict⟩ := step_of_data hstate hbyte hop
  rcases m.policy_eq with hpolicy | hpolicy
  · rw [hpermissive hpolicy] at h
    cases h
    rfl
  · rw [hstrict hpolicy] at h
    cases h

/-! ### What an instruction has done -/

/-- A machine goes on behind an instruction that does not redirect it.  The
pointer has been moved before the instruction is applied. -/
theorem ip_of_apply {m m' : Machine} {i : Instruction} (h : m.apply i = .ok () m')
    (hi : ¬ i.Redirects m.acc) : m'.ip = m.ip := by
  cases i with
  | movLitReg literal target =>
    cases h
    exact register_setRegister_of_ne m _ hi
  | movRegReg source target =>
    cases h
    exact register_setRegister_of_ne m _ hi
  | movRegMem source address =>
    simp only [apply] at h
    split at h <;> cases h
    rfl
  | movMemReg address target =>
    simp only [apply] at h
    split at h <;> cases h
    exact register_setRegister_of_ne m _ hi
  | addRegReg a b =>
    simp only [apply] at h
    split at h
    · cases h
    · split at h <;> cases h
      exact register_setRegister_of_ne m _ (by decide)
  | jmpNotEq literal address =>
    cases h
    exact congrArg ip (if_neg hi)
  | pushLit literal =>
    obtain ⟨-, rfl⟩ := push_eq_ok h
    exact register_pushed m literal (by decide)
  | pushReg source =>
    obtain ⟨-, rfl⟩ := push_eq_ok h
    exact register_pushed m _ (by decide)
  | pop target =>
    simp only [apply] at h
    split at h
    · next word m₁ hpop =>
      cases h
      obtain ⟨-, rfl⟩ := pop_eq_ok hpop
      exact (register_setRegister_of_ne _ _ hi).trans
        (register_popped m (by decide))
    · cases h
  | hlt =>
    cases h
    rfl
  | calLit address => exact absurd trivial hi
  | calReg source => exact absurd trivial hi
  | ret => exact absurd trivial hi

/-- An instruction reads its source registers before it writes anything, so a
register that is both source and target gives the word of before. -/
theorem delivers_of_apply {m m' : Machine} {i : Instruction}
    (h : m.apply i = .ok () m') :
    i.Delivers m m' := by
  cases i with
  | movRegReg source target =>
    cases h
    exact register_setRegister_self m target _
  | movRegMem source address =>
    simp only [apply] at h
    split at h
    · next memory hwrite =>
      cases h
      exact Memory.readWord_of_writeWord hwrite
    · cases h
  | addRegReg a b =>
    simp only [apply, Bank.readIndex_eq] at h
    split at h
    · cases h
    · next left hleft =>
      split at h <;> cases h
      next right hright =>
      split at hleft <;> cases hleft
      next r hr =>
      split at hright <;> cases hright
      next s hs =>
      exact ⟨r, s, hr, hs, register_setRegister_self m .acc _⟩
  | pushReg source =>
    obtain ⟨hfits, rfl⟩ := push_eq_ok h
    exact Memory.readWord_putWord_self _ _ hfits
  | calReg source =>
    obtain ⟨-, rfl⟩ := call_eq_ok h
    exact ip_entered _ _
  | movLitReg | movMemReg | jmpNotEq | pushLit | pop | calLit | ret | hlt => trivial

/-- The word behind the topmost of a frame is the address to return
to.  It is found at a fixed distance from the stack pointer, whatever
else is on the stack. -/
theorem return_address_of_entered {m : Machine} (target : UInt16)
    (h : m.checkRoom frameWords = .ok ()) :
    ((m.pushedAll m.frame).entered target).memory.readWord
      (((m.pushedAll m.frame).entered target).sp + 4).toNat = .ok m.ip := by
  have hten :
      m.checkRoom ((Register.general.map m.register).length + 2) = .ok () := h
  obtain ⟨-, htwo⟩ := room_of_add hten
  have hframe : m.pushedAll m.frame =
      ((m.pushedAll (Register.general.map m.register)).pushed m.ip).pushed
        (m.frameBytes + 20) := by
    rw [frame, pushedAll_append]
    rfl
  generalize m.pushedAll (Register.general.map m.register) = m₈ at htwo hframe
  obtain ⟨hfits, -⟩ := room_of_succ htwo m.ip
  have hsp : ((m₈.pushed m.ip).pushed (m.frameBytes + 20)).sp + 4 = m₈.sp := by
    rw [sp_pushed, sp_pushed]
    grind
  have hmemory : ((m₈.pushed m.ip).pushed (m.frameBytes + 20)).memory =
      (m₈.memory.putWord m₈.sp.toNat m.ip).putWord (m₈.sp - 2).toNat
        (m.frameBytes + 20) := by
    rw [← sp_pushed m₈ m.ip]
    rfl
  -- The slots stay apart also where the second lies behind the end of the
  -- address space.
  have hapart : (m₈.sp - 2).toNat + 2 ≤ m₈.sp.toNat ∨
      m₈.sp.toNat + 2 ≤ (m₈.sp - 2).toNat := by
    have hlt := m₈.sp.toNat_lt
    rw [UInt16.toNat_sub]
    show (65536 - 2 + m₈.sp.toNat) % 65536 + 2 ≤ _ ∨
      _ ≤ (65536 - 2 + m₈.sp.toNat) % 65536
    omega
  rw [memory_entered, sp_entered, hframe, hsp, hmemory,
    Memory.readWord_putWord_of_disjoint _ _ hapart]
  exact Memory.readWord_putWord_self _ _ hfits

/-- A call saves the address that the machine would have gone on at.  That is so
for both kinds of call, whether the target is a word or in a register. -/
theorem return_address_of_apply {m m' : Machine} {i : Instruction}
    (h : m.apply i = .ok () m')
    (hcall : i.opcode = .calLit ∨ i.opcode = .calReg) :
    m'.memory.readWord (m'.sp + 4).toNat = .ok m.ip := by
  cases i with
  | calLit address =>
    obtain ⟨hroom, rfl⟩ := call_eq_ok h
    exact return_address_of_entered address hroom
  | calReg source =>
    obtain ⟨hroom, rfl⟩ := call_eq_ok h
    exact return_address_of_entered _ hroom
  | movLitReg | movRegReg | movRegMem | movMemReg | addRegReg | jmpNotEq |
      pushLit | pushReg | pop
  | ret | hlt => rcases hcall with hop | hop <;> cases hop

/-! ### The step of a running machine -/

/-- A step reads an instruction as a whole before it applies it: it goes on
behind the instruction unless that redirects it, returns to behind a call, and
finds behind the instruction whatever it reads from the instruction pointer; and
a byte that is no opcode is skipped or refused. -/
theorem step_reads_then_applies {m : Machine} (hstate : m.state = .running) :
    step m = stepInPhases m ∧
    (∀ op m', step m = .ok (.executed op) m' →
      ∃ i, i.opcode = op ∧
        m.memory.itemAt m.ip = .ok (.instruction i, m.ip + UInt16.ofNat op.length) ∧
        (¬ i.Redirects m.acc → m'.ip = m.ip + UInt16.ofNat op.length) ∧
        (op = .calLit ∨ op = .calReg →
          m'.memory.readWord (m'.sp + 4).toNat =
            .ok (m.ip + UInt16.ofNat op.length)) ∧
        i.Delivers (m.setRegister .ip (m.ip + UInt16.ofNat op.length)) m') ∧
    (∀ byte, m.memory.readByte m.ip.toNat = .ok byte → Opcode.ofByte? byte = none →
      (m.policy = .permissive →
        step m = .ok (.skipped byte)
          { m.setRegister .ip (m.ip + 1) with cycles := m.cycles + 1 }) ∧
      (m.policy = .strict →
        step m = .error (.illegalInstruction byte m.ip)
          { m with state := .faulted })) := by
  refine ⟨step_in_phases hstate, ?_, fun byte hbyte hop =>
    step_of_data hstate hbyte hop⟩
  intro op m' hstep
  obtain ⟨i, m₁, hop, hitem, happly, rfl⟩ := step_executed hstate hstep
  have hip : (m.setRegister .ip (m.ip + UInt16.ofNat op.length)).ip =
      m.ip + UInt16.ofNat op.length := register_setRegister_self ..
  have hacc : (m.setRegister .ip (m.ip + UInt16.ofNat op.length)).acc = m.acc :=
    register_setRegister_of_ne _ _ (by decide)
  refine ⟨i, hop, hitem, ?_, ?_, ?_⟩
  · intro hi
    rw [← hacc] at hi
    exact (ip_of_apply happly hi).trans hip
  · intro hcall
    rw [← hop] at hcall
    exact (return_address_of_apply happly hcall).trans (congrArg Except.ok hip)
  · have hdelivers := delivers_of_apply happly
    cases i <;> exact hdelivers

/-- A machine about to call the subroutine at its own instruction pointer. -/
def callingOnward : Machine :=
  fresh ((Memory.zeroed 64).overwrite 0 [0x5f, 0x00]) .strict

theorem itemAt_callingOnward : callingOnward.memory.itemAt callingOnward.ip =
    .ok (.instruction (.calReg .ip), 2) := by
  have hcode : callingOnward.memory.readByte callingOnward.ip.toNat =
      .ok 0x5f := by cbv
  have hoperands :
      callingOnward.memory.operandsAt (callingOnward.ip + 1) [.register] =
      .ok ([.register .ip], 2) := by cbv
  exact Memory.itemAt_of_instruction hcode hoperands

theorem step_callingOnward :
    ∃ m', step callingOnward = .ok (.executed .calReg) m' := by
  have hroom : (callingOnward.setRegister .ip 2).checkRoom frameWords =
      .ok () := by cbv
  have hcall : (callingOnward.setRegister .ip 2).apply (.calReg .ip) =
      .ok () (((callingOnward.setRegister .ip 2).pushedAll
        (callingOnward.setRegister .ip 2).frame).entered 2) :=
    call_of_room _ hroom
  exact ⟨_, step_of_instruction rfl itemAt_callingOnward hcall⟩

/-- A call through the instruction pointer enters the code behind the call,
and returns there. -/
theorem call_through_pointer_goes_on_behind :
    ∃ m', step callingOnward = .ok (.executed .calReg) m' ∧ m'.ip = 2 ∧
      m'.memory.readWord (m'.sp + 4).toNat = .ok 2 := by
  have hstate : callingOnward.state = .running := rfl
  obtain ⟨m', hstep⟩ := step_callingOnward
  obtain ⟨i, -, hitem, -, haddress, hdelivers⟩ :=
    (step_reads_then_applies hstate).2.1 _ m' hstep
  rw [itemAt_callingOnward] at hitem
  cases hitem
  exact ⟨m', hstep, hdelivers, haddress (.inr rfl)⟩

end Machine

end StackMachine
