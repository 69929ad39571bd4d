import StackMachine.Instruction.Operand

/-!
# Instructions

An instruction is an opcode with its operands.

## Main definitions

* `Instruction`, `Instruction.opcode`, `Instruction.operands`
* `Instruction.add` — the addition of two registers given by name
* `Instruction.encode` — the bytes of an instruction
* `Instruction.decode?` — the instruction at the front of a list of bytes
* `Instruction.text` — how an instruction is written out

## Main statements

* `Instruction.map_kind_operands` — the operands follow the layout of the opcode
* `Instruction.ofOperands?_of_kinds` — operands that follow it make an
  instruction
* `Instruction.decode?_cons` — what stands in memory for an instruction
* `Instruction.length_encode` — the code is as long as the opcode says
* `Instruction.decode?_encode` — decoding takes back what was encoded and leaves
  what stands behind it

## Design notes

The addition takes its registers by raw position, which need not be the position
of any register; every other instruction takes registers by selector, which
always selects one.  So `addRegReg` holds bytes where the others hold registers.
-/

namespace StackMachine

/-- An opcode with its operands, in the order of the code. -/
inductive Instruction where
  /-- A literal goes to a register. -/
  | movLitReg (literal : UInt16) (target : Register)
  /-- A register goes to a register. -/
  | movRegReg (source target : Register)
  /-- A register goes to the word at an address. -/
  | movRegMem (source : Register) (address : UInt16)
  /-- The word at an address goes to a register. -/
  | movMemReg (address : UInt16) (target : Register)
  /-- The sum of the registers at two raw positions goes to the accumulator. -/
  | addRegReg (a b : UInt8)
  /-- Execution goes on at an address unless a literal equals the accumulator. -/
  | jmpNotEq (literal address : UInt16)
  /-- A literal is pushed. -/
  | pushLit (literal : UInt16)
  /-- A register is pushed. -/
  | pushReg (source : Register)
  /-- A word is popped into a register. -/
  | pop (target : Register)
  /-- The subroutine at an address is called. -/
  | calLit (address : UInt16)
  /-- The subroutine whose address is in a register is called. -/
  | calReg (source : Register)
  /-- A subroutine returns. -/
  | ret
  /-- The machine halts. -/
  | hlt
deriving DecidableEq, Repr

namespace Instruction

/-- The addition of two registers. -/
def add (a b : Register) : Instruction := addRegReg a.selector b.selector

/-- The opcode of an instruction. -/
def opcode : Instruction → Opcode
  | movLitReg .. => .movLitReg
  | movRegReg .. => .movRegReg
  | movRegMem .. => .movRegMem
  | movMemReg .. => .movMemReg
  | addRegReg .. => .addRegReg
  | jmpNotEq .. => .jmpNotEq
  | pushLit .. => .pushLit
  | pushReg .. => .pushReg
  | pop .. => .pop
  | calLit .. => .calLit
  | calReg .. => .calReg
  | ret => .ret
  | hlt => .hlt

/-- The operands of an instruction, in the order of the code. -/
def operands : Instruction → List Operand
  | movLitReg literal target => [.literal literal, .register target]
  | movRegReg source target => [.register source, .register target]
  | movRegMem source address => [.register source, .address address]
  | movMemReg address target => [.address address, .register target]
  | addRegReg a b => [.registerIndex a, .registerIndex b]
  | jmpNotEq literal address => [.literal literal, .address address]
  | pushLit literal => [.literal literal]
  | pushReg source => [.register source]
  | pop target => [.register target]
  | calLit address => [.address address]
  | calReg source => [.register source]
  | ret | hlt => []

/-- The instruction with an opcode and operands, if they belong together. -/
def ofOperands? : Opcode → List Operand → Option Instruction
  | .movLitReg, [.literal literal, .register target] =>
    some (movLitReg literal target)
  | .movRegReg, [.register source, .register target] =>
    some (movRegReg source target)
  | .movRegMem, [.register source, .address address] =>
    some (movRegMem source address)
  | .movMemReg, [.address address, .register target] =>
    some (movMemReg address target)
  | .addRegReg, [.registerIndex a, .registerIndex b] => some (addRegReg a b)
  | .jmpNotEq, [.literal literal, .address address] =>
    some (jmpNotEq literal address)
  | .pushLit, [.literal literal] => some (pushLit literal)
  | .pushReg, [.register source] => some (pushReg source)
  | .pop, [.register target] => some (pop target)
  | .calLit, [.address address] => some (calLit address)
  | .calReg, [.register source] => some (calReg source)
  | .ret, [] => some ret
  | .hlt, [] => some hlt
  | _, _ => none

/-- The bytes of an instruction. -/
def encode (i : Instruction) : List UInt8 :=
  i.opcode.byte :: i.operands.flatMap Operand.encode

/-- The instruction at the front of a list of bytes, and the bytes
behind it; nothing if the first byte is no opcode or the list ends
before the operands do. -/
def decode? : List UInt8 → Option (Instruction × List UInt8)
  | [] => none
  | code :: bytes => do
    let opcode ← Opcode.ofByte? code
    let (operands, rest) ← Operand.readAll? opcode.layout bytes
    let i ← ofOperands? opcode operands
    return (i, rest)

/-- How an instruction is written out: its mnemonic and, behind a blank, its
operands with commas between them. -/
def text (i : Instruction) : String :=
  match i.operands with
  | [] => i.opcode.mnemonic
  | operands =>
    i.opcode.mnemonic ++ " " ++ ", ".intercalate (operands.map Operand.text)

@[simp] theorem map_kind_operands (i : Instruction) :
    i.operands.map Operand.kind = i.opcode.layout := by
  cases i <;> rfl

@[simp] theorem ofOperands?_operands (i : Instruction) :
    ofOperands? i.opcode i.operands = some i := by
  cases i <;> rfl

/-- Operands of the kinds that an opcode asks for make an instruction of it. -/
theorem ofOperands?_of_kinds {op : Opcode} {operands : List Operand}
    (h : operands.map Operand.kind = op.layout) :
    ∃ i, ofOperands? op operands = some i ∧ i.opcode = op ∧
      i.operands = operands := by
  cases op <;>
    simp only [Opcode.layout, List.map_eq_cons_iff, List.map_eq_nil_iff,
      Operand.kind_eq_literal, Operand.kind_eq_address,
      Operand.kind_eq_register, Operand.kind_eq_registerIndex] at h
  case movLitReg | movRegReg | movRegMem | movMemReg | addRegReg | jmpNotEq =>
    obtain ⟨_, _, rfl, ⟨_, rfl⟩, _, _, rfl, ⟨_, rfl⟩, rfl⟩ := h
    exact ⟨_, rfl, rfl, rfl⟩
  case pushLit | pushReg | pop | calLit | calReg =>
    obtain ⟨_, _, rfl, ⟨_, rfl⟩, rfl⟩ := h
    exact ⟨_, rfl, rfl, rfl⟩
  case ret | hlt =>
    subst h
    exact ⟨_, rfl, rfl, rfl⟩

/-- An instruction is decoded from its opcode and the operands behind it. -/
theorem decode?_cons {code : UInt8} {bytes rest : List UInt8} {i : Instruction} :
    decode? (code :: bytes) = some (i, rest) ↔
      Opcode.ofByte? code = some i.opcode ∧
        Operand.readAll? i.opcode.layout bytes = some (i.operands, rest) := by
  simp only [decode?, Option.bind_eq_bind, Option.bind_eq_some_iff]
  constructor
  · rintro ⟨op, hop, ⟨operands, behind⟩, hoperands, j, hj, heq⟩
    cases heq
    obtain ⟨i, hi, rfl, rfl⟩ :=
      ofOperands?_of_kinds (Operand.readAll?_spec hoperands).1
    rw [hi] at hj
    cases hj
    exact ⟨hop, hoperands⟩
  · rintro ⟨hop, hoperands⟩
    exact ⟨i.opcode, hop, _, hoperands, i, ofOperands?_operands i, rfl⟩

theorem length_encode (i : Instruction) : i.encode.length = i.opcode.length := by
  cases i <;> rfl

/-- What is encoded is decoded, whatever stands behind it. -/
theorem decode?_encode (i : Instruction) (rest : List UInt8) :
    decode? (i.encode ++ rest) = some (i, rest) := by
  simp [encode, decode?, ← map_kind_operands]

end Instruction

end StackMachine
