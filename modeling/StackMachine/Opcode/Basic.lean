import StackMachine.Text.Hex

/-!
# Opcodes

An instruction starts with one byte, its opcode, and goes on with operands whose
kinds the opcode determines.

## Main definitions

* `OperandKind`, `OperandKind.width`, `OperandKind.totalWidth`
* `Opcode`, `Opcode.all`, `Opcode.byte`, `Opcode.ofByte?`
* `Opcode.layout` — the kinds of the operands, in the order of the code
* `Opcode.length` — how many bytes the whole instruction takes
* `Opcode.mnemonic`, `Opcode.name`, `Opcode.named?`

## Main statements

* `Opcode.ofByte?_byte`, `Opcode.eq_byte_of_ofByte?` — the bytes of the opcodes
  are their codes
* `Opcode.length_le_five` — no instruction is longer than five bytes
-/

namespace StackMachine

/-- What stands after an opcode. -/
inductive OperandKind where
  /-- A word taken as it is. -/
  | literal
  /-- A word that is an address. -/
  | address
  /-- A byte that selects a register, modulo their number. -/
  | register
  /-- A byte that is the raw position of a register. -/
  | registerIndex
deriving DecidableEq, Repr

namespace OperandKind

/-- How many bytes an operand takes. -/
def width : OperandKind → Nat
  | literal | address => 2
  | register | registerIndex => 1

/-- How many bytes operands take together. -/
def totalWidth : List OperandKind → Nat
  | [] => 0
  | kind :: kinds => kind.width + totalWidth kinds

/-- Every operand takes at least one byte, so reading operands makes progress. -/
theorem width_pos (kind : OperandKind) : 0 < kind.width := by cases kind <;> decide

/-- The name of a kind. -/
def name : OperandKind → String
  | literal => "Literal"
  | address => "Address"
  | register => "Register"
  | registerIndex => "RegisterIndex"

end OperandKind

/-- What an instruction does. -/
inductive Opcode where
  /-- A literal goes to a register. -/
  | movLitReg
  /-- A register goes to a register. -/
  | movRegReg
  /-- A register goes to memory. -/
  | movRegMem
  /-- A word of memory goes to a register. -/
  | movMemReg
  /-- The sum of two registers, given by raw position, goes to the accumulator. -/
  | addRegReg
  /-- Execution goes on at an address unless a literal equals the accumulator. -/
  | jmpNotEq
  /-- A literal is pushed. -/
  | pushLit
  /-- A register is pushed. -/
  | pushReg
  /-- A word is popped into a register. -/
  | pop
  /-- The subroutine at an address is called. -/
  | calLit
  /-- The subroutine whose address is in a register is called. -/
  | calReg
  /-- A subroutine returns. -/
  | ret
  /-- The machine halts. -/
  | hlt
deriving DecidableEq, Repr

/-- A byte that is the code of no opcode. -/
structure IllegalOpcode where
  /-- The byte. -/
  byte : UInt8
deriving DecidableEq, Repr

/-- The wording of an illegal opcode. -/
def IllegalOpcode.message (e : IllegalOpcode) : String :=
  "illegal opcode " ++ Hex.byte e.byte

namespace Opcode

/-- Every opcode, in the order of their codes. -/
def all : List Opcode :=
  [movLitReg, movRegReg, movRegMem, movMemReg, addRegReg, jmpNotEq,
    pushLit, pushReg, pop, calLit, calReg, ret, hlt]

/-- The code of an opcode. -/
def byte : Opcode → UInt8
  | movLitReg => 0x10 | movRegReg => 0x11 | movRegMem => 0x12 | movMemReg => 0x13
  | addRegReg => 0x14 | jmpNotEq => 0x15
  | pushLit => 0x17 | pushReg => 0x18 | pop => 0x1a
  | calLit => 0x5e | calReg => 0x5f | ret => 0x60
  | hlt => 0xff

/-- The opcode with a code, if there is one. -/
def ofByte? (code : UInt8) : Option Opcode := all.find? (·.byte = code)

/-- The opcode with a code, or the complaint that there is none. -/
def decode (code : UInt8) : Except IllegalOpcode Opcode :=
  match ofByte? code with
  | some opcode => .ok opcode
  | none => .error ⟨code⟩

/-- The kinds of the operands, in the order of the code. -/
def layout : Opcode → List OperandKind
  | movLitReg => [.literal, .register]
  | movRegReg => [.register, .register]
  | movRegMem => [.register, .address]
  | movMemReg => [.address, .register]
  | addRegReg => [.registerIndex, .registerIndex]
  | jmpNotEq => [.literal, .address]
  | pushLit => [.literal]
  | pushReg | pop | calReg => [.register]
  | calLit => [.address]
  | ret | hlt => []

/-- How many bytes an instruction takes, its opcode included. -/
def length (op : Opcode) : Nat := 1 + OperandKind.totalWidth op.layout

/-- How an instruction begins when it is written out.  Opcodes that differ only
in the kinds of their operands share it. -/
def mnemonic : Opcode → String
  | movLitReg | movRegReg | movRegMem | movMemReg => "mov"
  | addRegReg => "add"
  | jmpNotEq => "jne"
  | pushLit | pushReg => "psh"
  | pop => "pop"
  | calLit | calReg => "cal"
  | ret => "ret"
  | hlt => "hlt"

/-- The name of an opcode, by which it is told from every other. -/
def name : Opcode → String
  | movLitReg => "MovLitReg" | movRegReg => "MovRegReg"
  | movRegMem => "MovRegMem" | movMemReg => "MovMemReg"
  | addRegReg => "AddRegReg" | jmpNotEq => "JmpNotEq"
  | pushLit => "PushLit" | pushReg => "PushReg" | pop => "Pop"
  | calLit => "CalLit" | calReg => "CalReg" | ret => "Ret" | hlt => "Hlt"

/-- The opcode with exactly this name. -/
def named? (name : String) : Option Opcode := all.find? (·.name = name)

@[simp] theorem ofByte?_byte (op : Opcode) :
    ofByte? op.byte = some op := by cases op <;> rfl

/-- The byte of an opcode determines it and is determined by it. -/
theorem eq_byte_of_ofByte? {code : UInt8} {op : Opcode}
    (h : ofByte? code = some op) :
    op.byte = code := by
  simpa using List.find?_some h

@[simp] theorem named?_name (op : Opcode) :
    named? op.name = some op := by cases op <;> rfl

theorem length_pos (op : Opcode) : 0 < op.length := by cases op <;> decide

/-- No instruction is longer than the five bytes that a listing looks at. -/
theorem length_le_five (op : Opcode) : op.length ≤ 5 := by cases op <;> decide

end Opcode

end StackMachine
