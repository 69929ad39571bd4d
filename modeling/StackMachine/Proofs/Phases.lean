import StackMachine.Listing
import StackMachine.Proofs.Rollback

/-!
# Steps in two phases

`Machine.execute` fetches operands and executes in one go, each opcode in its
own order.  Here the same step is given in two phases that know nothing of each
other: the first reads an instruction off memory by the table of operand layouts
and touches no machine, the second applies a table of effects to the machine
behind the instruction and reads no code.

## Main definitions

* `Memory.operandAt`, `Memory.operandsAt` — operands of given kinds at an
  address
* `Memory.itemAt` — what stands at an address, and the address behind it
* `Machine.apply` — the effect of each instruction
* `Machine.stepInPhases` — a step that reads first and applies then

## Main statements

* `Memory.operandsAt_spec` — operands have the kinds and the width of their
  layout
* `Machine.fetchOperands_of_ok`, `Machine.fetchOperands_of_error` — fetching
  field by field is reading at the instruction pointer
* `Machine.execute_eq` — an opcode fetches the operands of its layout and
  applies its instruction
* `Machine.step_in_phases` — a step of a running machine is a step in two phases

## Design notes

**What a failure leaves.**  An opcode that fails while it fetches has moved the
instruction pointer part of the way, and the first phase has not.  The
difference is lost in a step, which puts the registers back, so only the cause
of a failure is compared here and the machine after it comes from
`Machine.step_of_error`.

**A byte that is no opcode** is an item of data, as in a listing.  Operands that
were read by the layout of an opcode always make an instruction of it
(`Instruction.ofOperands?_of_kinds`), so no item of data comes from an opcode.
-/

namespace StackMachine

open Listing (Item)

/-! ### The first phase -/

namespace Memory

/-- The operand of a kind whose code stands at an address. -/
def operandAt (m : Memory) (address : UInt16) :
    OperandKind → Except OutOfBounds Operand
  | .literal => (m.readWord address.toNat).map .literal
  | .address => (m.readWord address.toNat).map .address
  | .register => (m.readByte address.toNat).map fun byte =>
    .register (Register.ofSelector byte)
  | .registerIndex => (m.readByte address.toNat).map .registerIndex

/-- Operands of the given kinds, one after another from an address on, and the
address behind the last.  Addresses wrap around behind every field. -/
def operandsAt (m : Memory) (address : UInt16) :
    List OperandKind → Except OutOfBounds (List Operand × UInt16)
  | [] => .ok ([], address)
  | kind :: kinds =>
    match m.operandAt address kind with
    | .error e => .error e
    | .ok operand =>
      match m.operandsAt (address + UInt16.ofNat kind.width) kinds with
      | .error e => .error e
      | .ok (operands, next) => .ok (operand :: operands, next)

/-- The instruction or the byte of data at an address, and the address behind it. -/
def itemAt (m : Memory) (address : UInt16) : Except OutOfBounds (Item × UInt16) :=
  match m.readByte address.toNat with
  | .error e => .error e
  | .ok code =>
    match Opcode.ofByte? code with
    | none => .ok (.data code, address + 1)
    | some op =>
      match m.operandsAt (address + 1) op.layout with
      | .error e => .error e
      | .ok (operands, next) =>
        .ok ((Instruction.ofOperands? op operands).elim
          (.data code) .instruction, next)

theorem map_eq_ok {ε α β : Type} {f : α → β} {x : Except ε α} {b : β}
    (h : x.map f = .ok b) :
    ∃ a, x = .ok a ∧ f a = b := by
  cases x with
  | error e => cases h
  | ok a =>
    cases h
    exact ⟨a, rfl, rfl⟩

theorem kind_operandAt {m : Memory} {address : UInt16} {kind : OperandKind}
    {operand : Operand} (h : m.operandAt address kind = .ok operand) :
    operand.kind = kind := by
  cases kind <;> obtain ⟨_, -, rfl⟩ := map_eq_ok h <;> rfl

/-- Operands stand one behind the other, each at the address behind the one
before.  Inductions along a layout take off its first kind with this. -/
theorem operandsAt_cons_eq_ok {m : Memory} {address next : UInt16}
    {kind : OperandKind} {kinds : List OperandKind} {operands : List Operand}
    (h : m.operandsAt address (kind :: kinds) = .ok (operands, next)) :
    ∃ operand others, operands = operand :: others ∧
      m.operandAt address kind = .ok operand ∧
      m.operandsAt (address + UInt16.ofNat kind.width) kinds =
        .ok (others, next) := by
  rw [operandsAt] at h
  split at h
  · cases h
  · next operand hfirst =>
    split at h <;> cases h
    next others hrest => exact ⟨operand, others, rfl, hfirst, hrest⟩

/-- Operands that are read have the kinds of the layout, and the address behind
them is as far on as the layout is wide. -/
theorem operandsAt_spec {m : Memory} {address next : UInt16}
    {kinds : List OperandKind} {operands : List Operand}
    (h : m.operandsAt address kinds = .ok (operands, next)) :
    operands.map Operand.kind = kinds ∧
      next = address + UInt16.ofNat (OperandKind.totalWidth kinds) := by
  induction kinds generalizing address operands with
  | nil =>
    cases h
    exact ⟨rfl, (UInt16.add_zero next).symm⟩
  | cons kind kinds ih =>
    obtain ⟨operand, others, rfl, hfirst, hrest⟩ := operandsAt_cons_eq_ok h
    obtain ⟨hkinds, hnext⟩ := ih hrest
    constructor
    · rw [List.map_cons, kind_operandAt hfirst, hkinds]
    · rw [hnext, OperandKind.totalWidth, UInt16.ofNat_add, UInt16.add_assoc]

/-! ### Items -/

section Items

variable {m : Memory} {address : UInt16} {code : UInt8} {op : Opcode}

theorem itemAt_of_no_code {e : OutOfBounds}
    (hcode : m.readByte address.toNat = .error e) :
    m.itemAt address = .error e := by
  rw [itemAt, hcode]

theorem itemAt_of_data (hcode : m.readByte address.toNat = .ok code)
    (hop : Opcode.ofByte? code = none) :
    m.itemAt address = .ok (.data code, address + 1) := by
  simp only [itemAt, hcode, hop]

/-- An opcode whose operands do not all lie in memory is no item, not even as
data.  In this it differs from what a listing shows. -/
theorem itemAt_of_no_operands (hcode : m.readByte address.toNat = .ok code)
    (hop : Opcode.ofByte? code = some op) {e : OutOfBounds}
    (hoperands : m.operandsAt (address + 1) op.layout = .error e) :
    m.itemAt address = .error e := by
  simp only [itemAt, hcode, hop, hoperands]

/-- An opcode with its operands is an instruction, as long as its opcode says.
The operands have the kinds of the layout, so there is always one. -/
theorem itemAt_of_operands (hcode : m.readByte address.toNat = .ok code)
    (hop : Opcode.ofByte? code = some op) {operands : List Operand} {next : UInt16}
    (hoperands : m.operandsAt (address + 1) op.layout = .ok (operands, next)) :
    ∃ i, i.opcode = op ∧ i.operands = operands ∧
      next = address + UInt16.ofNat op.length ∧
      m.itemAt address = .ok (.instruction i, next) := by
  obtain ⟨hkinds, hnext⟩ := operandsAt_spec hoperands
  obtain ⟨i, hi, hiop, hioperands⟩ := Instruction.ofOperands?_of_kinds hkinds
  refine ⟨i, hiop, hioperands, ?_, ?_⟩
  · rw [hnext, Opcode.length, UInt16.ofNat_add, UInt16.add_assoc]
    rfl
  · simp only [itemAt, hcode, hop, hoperands, hi, Option.elim_some]

/-- The opcode of an instruction with its operands is that instruction. -/
theorem itemAt_of_instruction {i : Instruction} {next : UInt16}
    (hcode : m.readByte address.toNat = .ok i.opcode.byte)
    (hoperands : m.operandsAt (address + 1) i.opcode.layout =
      .ok (i.operands, next)) :
    m.itemAt address = .ok (.instruction i, next) := by
  simp only [itemAt, hcode, Opcode.ofByte?_byte, hoperands,
    Instruction.ofOperands?_operands, Option.elim_some]

/-- An item is a byte that is no opcode, or an opcode with its operands.  A
statement about all items is proved in these two cases. -/
theorem itemAt_eq_ok {item : Item} {next : UInt16}
    (h : m.itemAt address = .ok (item, next)) :
    ∃ code, m.readByte address.toNat = .ok code ∧
      ((Opcode.ofByte? code = none ∧ item = .data code ∧ next = address + 1) ∨
        ∃ i, code = i.opcode.byte ∧ item = .instruction i ∧
          m.operandsAt (address + 1) i.opcode.layout = .ok (i.operands, next) ∧
          next = address + UInt16.ofNat i.opcode.length) := by
  cases hcode : m.readByte address.toNat with
  | error e =>
    rw [itemAt_of_no_code hcode] at h
    cases h
  | ok code =>
    refine ⟨code, rfl, ?_⟩
    cases hop : Opcode.ofByte? code with
    | none =>
      rw [itemAt_of_data hcode hop] at h
      cases h
      exact .inl ⟨rfl, rfl, rfl⟩
    | some op =>
      cases hoperands : m.operandsAt (address + 1) op.layout with
      | error e =>
        rw [itemAt_of_no_operands hcode hop hoperands] at h
        cases h
      | ok found =>
        obtain ⟨i, rfl, hioperands, hnext, hitem⟩ :=
          itemAt_of_operands hcode hop hoperands
        rw [hitem] at h
        cases h
        refine .inr ⟨i, (Opcode.eq_byte_of_ofByte? hop).symm, rfl, ?_, hnext⟩
        rw [hioperands, hoperands]

/-- An instruction is an opcode with its operands behind it, as long as
the opcode says.  Through this, facts about an instruction come down to
the bytes in memory. -/
theorem itemAt_eq_instruction {i : Instruction} {next : UInt16}
    (h : m.itemAt address = .ok (.instruction i, next)) :
    m.readByte address.toNat = .ok i.opcode.byte ∧
      m.operandsAt (address + 1) i.opcode.layout = .ok (i.operands, next) ∧
      next = address + UInt16.ofNat i.opcode.length := by
  obtain ⟨code, hcode, ⟨-, hitem, -⟩ | ⟨j, rfl, hitem, hoperands, hnext⟩⟩ :=
    itemAt_eq_ok h
  · cases hitem
  · cases hitem
    exact ⟨hcode, hoperands, hnext⟩

/-- A byte of data is no opcode. -/
theorem itemAt_eq_data {byte : UInt8} {next : UInt16}
    (h : m.itemAt address = .ok (.data byte, next)) :
    m.readByte address.toNat = .ok byte ∧ Opcode.ofByte? byte = none ∧
      next = address + 1 := by
  obtain ⟨code, hcode, ⟨hop, hitem, hnext⟩ | ⟨i, -, hitem, -⟩⟩ := itemAt_eq_ok h
  · cases hitem
    exact ⟨hcode, hop, hnext⟩
  · cases hitem

end Items

end Memory

/-! ### The second phase -/

namespace Machine

/-- The effect of an instruction on a machine whose instruction
pointer is behind it. -/
def apply (m : Machine) : Instruction → EStateM.Result Fault Machine Unit
  | .movLitReg literal target => .ok () (m.setRegister target literal)
  | .movRegReg source target => .ok () (m.setRegister target (m.register source))
  | .movRegMem source address =>
    match m.memory.writeWord address.toNat (m.register source) with
    | .ok memory => .ok () { m with memory }
    | .error e => .error (.memory e) m
  | .movMemReg address target =>
    match m.memory.readWord address.toNat with
    | .ok word => .ok () (m.setRegister target word)
    | .error e => .error (.memory e) m
  | .addRegReg a b =>
    match m.bank.readIndex a with
    | .error e => .error (.memory e) m
    | .ok left =>
      match m.bank.readIndex b with
      | .error e => .error (.memory e) m
      | .ok right => .ok () (m.setRegister .acc (left + right))
  | .jmpNotEq literal address =>
    .ok () (if literal ≠ m.acc then m.setRegister .ip address else m)
  | .pushLit literal => push literal m
  | .pushReg source => push (m.register source) m
  | .pop target =>
    match pop m with
    | .ok word m' => .ok () (m'.setRegister target word)
    | .error e m' => .error e m'
  | .calLit address => call address m
  | .calReg source => call (m.register source) m
  | .ret => ret m
  | .hlt => .ok () { m with state := .halted }

/-- One step of a running machine: read what stands at the instruction pointer,
then apply it to the machine behind it.  A step that fails in either phase
changes nothing but the state. -/
def stepInPhases (m : Machine) : EStateM.Result Fault Machine Step :=
  match m.memory.itemAt m.ip with
  | .error e => .error (.memory e) { m with state := .faulted }
  | .ok (.data byte, next) =>
    match m.policy with
    | .permissive =>
      .ok (.skipped byte) { m.setRegister .ip next with cycles := m.cycles + 1 }
    | .strict => .error (.illegalInstruction byte m.ip) { m with state := .faulted }
  | .ok (.instruction i, next) =>
    match (m.setRegister .ip next).apply i with
    | .error e _ => .error e { m with state := .faulted }
    | .ok () m' =>
      .ok (.executed i.opcode)
        { m' with cycles := m'.cycles + 1, lastOpcode := some i.opcode }

/-! ### Fetching is reading -/

/-- Fetch an operand of a kind. -/
def fetchOperand : OperandKind → Action Fault Operand
  | .literal => do return .literal (← fetchWord)
  | .address => do return .address (← fetchWord)
  | .register => do return .register (← fetchRegister)
  | .registerIndex => do return .registerIndex (← fetchByte)

/-- Fetch operands of the given kinds, one after another. -/
def fetchOperands : List OperandKind → Action Fault (List Operand)
  | [] => pure []
  | kind :: kinds => do
    let operand ← fetchOperand kind
    let operands ← fetchOperands kinds
    return operand :: operands

/-- To fetch an operand is to read it where the instruction pointer stands and
to move behind it. -/
theorem fetchOperand_apply (kind : OperandKind) (m : Machine) :
    fetchOperand kind m =
      match m.memory.operandAt m.ip kind with
      | .ok operand =>
        .ok operand (m.setRegister .ip (m.ip + UInt16.ofNat kind.width))
      | .error e => .error (.memory e) m := by
  cases kind with
  | literal | address =>
    cases hread : m.memory.readWord m.ip.toNat with
    | ok word =>
      simp only [fetchOperand, Action.bind_apply, fetchWord, Memory.operandAt,
        hread, Except.map]
      rfl
    | error e =>
      simp only [fetchOperand, Action.bind_apply, fetchWord, Memory.operandAt,
        hread, Except.map]
  | register | registerIndex =>
    cases hread : m.memory.readByte m.ip.toNat with
    | ok byte =>
      simp only [fetchOperand, fetchRegister, Action.bind_apply, fetchByte,
        Memory.operandAt, hread, Except.map]
      rfl
    | error e =>
      simp only [fetchOperand, fetchRegister, Action.bind_apply, fetchByte,
        Memory.operandAt, hread, Except.map]

theorem fetchOperands_cons (kind : OperandKind) (kinds : List OperandKind) :
    fetchOperands (kind :: kinds) =
      fetchOperand kind >>= fun operand =>
        fetchOperands kinds >>= fun operands => pure (operand :: operands) := rfl

/-- Operands that can be read are fetched one after another, and leave the
pointer behind the last. -/
theorem fetchOperands_of_ok {m : Machine} {address next : UInt16}
    {kinds : List OperandKind} {operands : List Operand} (hip : m.ip = address)
    (h : m.memory.operandsAt address kinds = .ok (operands, next)) :
    fetchOperands kinds m = .ok operands (m.setRegister .ip next) := by
  induction kinds generalizing m address operands with
  | nil =>
    cases h
    rw [← hip]
    exact congrArg (EStateM.Result.ok []) (m.setRegister_register .ip).symm
  | cons kind kinds ih =>
    obtain ⟨operand, others, rfl, hfirst, hrest⟩ := Memory.operandsAt_cons_eq_ok h
    have hfetch : fetchOperand kind m =
        .ok operand (m.setRegister .ip (address + UInt16.ofNat kind.width)) := by
      rw [fetchOperand_apply, hip, hfirst]
    have hothers := ih (m.register_setRegister_self .ip _) hrest
    rw [fetchOperands_cons, Action.bind_of_ok hfetch, Action.bind_of_ok hothers,
      setRegister_setRegister]
    rfl

/-- If one of them cannot be read, the fetch complains about that one.  How far
the pointer has moved by then does not matter, as the step puts it back. -/
theorem fetchOperands_of_error {m : Machine} {address : UInt16}
    {kinds : List OperandKind} {e : OutOfBounds} (hip : m.ip = address)
    (h : m.memory.operandsAt address kinds = .error e) :
    ∃ m', fetchOperands kinds m = .error (.memory e) m' := by
  induction kinds generalizing m address with
  | nil => cases h
  | cons kind kinds ih =>
    have hfetch := fetchOperand_apply kind m
    rw [Memory.operandsAt] at h
    rw [hip] at hfetch
    cases hfirst : m.memory.operandAt address kind with
    | error e₁ =>
      rw [hfirst] at h hfetch
      cases h
      exact ⟨m, by rw [fetchOperands_cons, Action.bind_of_error hfetch]⟩
    | ok operand =>
      rw [hfirst] at h hfetch
      cases hrest :
        m.memory.operandsAt (address + UInt16.ofNat kind.width) kinds with
      | ok found => rw [hrest] at h; cases h
      | error e₁ =>
        rw [hrest] at h
        cases h
        obtain ⟨m', hm'⟩ := ih (m.register_setRegister_self .ip _) hrest
        exact ⟨m', by
          rw [fetchOperands_cons, Action.bind_of_ok hfetch,
            Action.bind_of_error hm']⟩

/-- Apply the instruction that an opcode makes with operands. -/
def applyOperands (op : Opcode) (operands : List Operand) :
    Action Fault Unit := fun m =>
  match Instruction.ofOperands? op operands with
  | some i => m.apply i
  | none => .ok () m

/-- To apply an opcode to the operands of an instruction with it is to apply the
instruction.  No case of other operands is left over. -/
theorem applyOperands_operands (i : Instruction) (m : Machine) :
    applyOperands i.opcode i.operands m = m.apply i := by
  rw [applyOperands, Instruction.ofOperands?_operands]

/-- To store a word is to write memory, and to leave the machine alone
where that fails. -/
theorem storeWord_apply (address value : UInt16) (m : Machine) :
    storeWord address value m =
      match m.memory.writeWord address.toNat value with
      | .ok memory => .ok () { m with memory }
      | .error e => .error (.memory e) m := by
  rw [storeWord_eq, Memory.writeWord]
  split <;> rfl

/-- Each opcode fetches the operands of its layout before it does
anything else. This is where the execution, which fetches as it goes,
falls into its two phases. -/
theorem execute_eq (op : Opcode) :
    execute op = fetchOperands op.layout >>= applyOperands op := by
  -- Both sides start with the same fetches.  What is left differs where an
  -- action reads in between.
  cases op <;>
    simp only [execute, Opcode.layout, fetchOperands, fetchOperand, bind_assoc,
      pure_bind]
  case movLitReg | movRegReg | pushLit | pushReg | calLit | calReg |
    ret | hlt => rfl
  case movRegMem =>
    refine bind_congr fun source => bind_congr fun address => ?_
    funext m
    exact storeWord_apply address (m.register source) m
  case movMemReg =>
    refine bind_congr fun address => bind_congr fun target => ?_
    funext m
    refine Eq.trans ?_ (applyOperands_operands (.movMemReg address target) m).symm
    cases hread : m.memory.readWord address.toNat with
    | ok word =>
      simp only [Action.bind_apply, loadWord, apply, hread]
      rfl
    | error e => simp only [Action.bind_apply, loadWord, apply, hread]
  case addRegReg =>
    refine bind_congr fun a => bind_congr fun b => ?_
    funext m
    refine Eq.trans ?_ (applyOperands_operands (.addRegReg a b) m).symm
    cases ha : m.bank.readIndex a with
    | error e => simp only [Action.bind_apply, registerAt, apply, ha]
    | ok left =>
      cases hb : m.bank.readIndex b with
      | error e => simp only [Action.bind_apply, registerAt, apply, ha, hb]
      | ok right =>
        simp only [Action.bind_apply, registerAt, apply, ha, hb]
        rfl
  case jmpNotEq =>
    refine bind_congr fun literal => bind_congr fun address => ?_
    funext m
    refine Eq.trans ?_ (applyOperands_operands (.jmpNotEq literal address) m).symm
    show (if literal ≠ m.acc then writeRegister .ip address
      else pure ⟨⟩ : Action Fault PUnit) m =
      .ok () (if literal ≠ m.acc then m.setRegister .ip address else m)
    split <;> rfl
  case pop =>
    refine bind_congr fun target => ?_
    funext m
    refine Eq.trans ?_ (applyOperands_operands (.pop target) m).symm
    rw [Action.bind_apply]
    cases hpop : pop m with
    | ok word m' =>
      simp only [apply, hpop]
      rfl
    | error e m' => simp only [apply, hpop]

/-! ### A step as a whole -/

/-- Without a byte at the instruction pointer a step fails, and has not moved. -/
theorem advance_of_no_code {m : Machine} {e : OutOfBounds}
    (hcode : m.memory.readByte m.ip.toNat = .error e) :
    advance m = .error (.memory e) m := by
  have hfetch : fetchByte m = .error (.memory e) m := by rw [fetchByte, hcode]
  unfold advance
  rw [Action.bind_of_ok (readRegister_apply .ip m), Action.bind_of_error hfetch]

/-- With one, the step looks the byte up among the opcodes, and goes by the
policy if it is none. -/
theorem advance_of_code {m : Machine} {code : UInt8}
    (hcode : m.memory.readByte m.ip.toNat = .ok code) :
    advance m =
      match Opcode.ofByte? code with
      | some op =>
        (execute op >>= fun _ => pure (.executed op)) (m.setRegister .ip (m.ip + 1))
      | none =>
        match m.policy with
        | .permissive => .ok (.skipped code) (m.setRegister .ip (m.ip + 1))
        | .strict =>
          .error (.illegalInstruction code m.ip)
            (m.setRegister .ip (m.ip + 1)) := by
  have hfetch : fetchByte m = .ok code (m.setRegister .ip (m.ip + 1)) := by
    rw [fetchByte, hcode]
  unfold advance
  rw [Action.bind_of_ok (readRegister_apply .ip m), Action.bind_of_ok hfetch]
  cases Opcode.ofByte? code with
  | some op => rfl
  | none =>
    obtain ⟨bank, memory, state, cycles, policy, frameBytes, lastOpcode⟩ := m
    cases policy <;> rfl

theorem policy_eq (m : Machine) : m.policy = .permissive ∨ m.policy = .strict := by
  cases m.policy
  · exact .inr rfl
  · exact .inl rfl

/-- A step of a running machine reads an instruction as a whole and applies it
to the machine behind the instruction.  What a step does is from here on said of
these phases only. -/
theorem step_in_phases {m : Machine} (hstate : m.state = .running) :
    step m = stepInPhases m := by
  cases hcode : m.memory.readByte m.ip.toNat with
  | error e =>
    rw [step_of_advance_error hstate (advance_of_no_code hcode), stepInPhases,
      Memory.itemAt_of_no_code hcode]
  | ok code =>
    have hadvance := advance_of_code hcode
    cases hop : Opcode.ofByte? code with
    | none =>
      have hitem := Memory.itemAt_of_data hcode hop
      rcases m.policy_eq with hpolicy | hpolicy
      · simp only [hop, hpolicy] at hadvance
        rw [step_of_advance_ok hstate hadvance]
        simp only [stepInPhases, hitem, hpolicy]
        rfl
      · simp only [hop, hpolicy] at hadvance
        rw [step_of_advance_error hstate hadvance]
        simp only [stepInPhases, hitem, hpolicy]
    | some op =>
      simp only [hop, execute_eq, bind_assoc] at hadvance
      have hip : (m.setRegister .ip (m.ip + 1)).ip = m.ip + 1 :=
        register_setRegister_self ..
      cases hoperands : m.memory.operandsAt (m.ip + 1) op.layout with
      | error e =>
        obtain ⟨m', hfetch⟩ := fetchOperands_of_error hip hoperands
        rw [Action.bind_of_error hfetch] at hadvance
        rw [step_of_advance_error hstate hadvance, stepInPhases,
          Memory.itemAt_of_no_operands hcode hop hoperands]
      | ok found =>
        obtain ⟨operands, next⟩ := found
        -- The layout of an opcode gives operands of the kinds that make an
        -- instruction of it.
        obtain ⟨i, rfl, rfl, -, hitem⟩ :=
          Memory.itemAt_of_operands hcode hop hoperands
        have hfetch := fetchOperands_of_ok hip hoperands
        rw [setRegister_setRegister] at hfetch
        rw [Action.bind_of_ok hfetch, Action.bind_apply] at hadvance
        simp only [applyOperands, Instruction.ofOperands?_operands] at hadvance
        cases happly : (m.setRegister .ip next).apply i with
        | ok done m' =>
          simp only [happly] at hadvance
          rw [step_of_advance_ok hstate hadvance]
          simp only [stepInPhases, hitem, happly]
          rfl
        | error e m' =>
          simp only [happly] at hadvance
          rw [step_of_advance_error hstate hadvance]
          simp only [stepInPhases, hitem, happly]

end Machine

end StackMachine
