import StackMachine.Opcode.Basic
import StackMachine.Register.Basic
import StackMachine.Word

/-!
# Operands

An operand is what stands after an opcode, together with its kind.

## Main definitions

* `Operand`, `Operand.kind`
* `Operand.encode` — the bytes of an operand
* `Operand.read?` — the operand of a given kind at the front of a list of bytes
* `Operand.readAll?` — operands of given kinds, one after another
* `Operand.text` — how an operand is written out

## Main statements

* `Operand.read?_encode`, `Operand.readAll?_encode` — reading takes back what
  was encoded and leaves what stands behind it
* `Operand.readAll?_spec` — reading gives the kinds of the layout and takes
  exactly its bytes
-/

namespace StackMachine

/-- What stands after an opcode. -/
inductive Operand where
  /-- A word taken as it is. -/
  | literal (word : UInt16)
  /-- A word that is an address. -/
  | address (word : UInt16)
  /-- A register that is selected. -/
  | register (r : Register)
  /-- The raw position of a register. -/
  | registerIndex (i : UInt8)
deriving DecidableEq, Repr

namespace Operand

/-- The kind of an operand. -/
def kind : Operand → OperandKind
  | literal _ => .literal
  | address _ => .address
  | register _ => .register
  | registerIndex _ => .registerIndex

/-- The bytes of an operand. -/
def encode : Operand → List UInt8
  | literal word | address word => Word.toBytes word
  | register r => [r.selector]
  | registerIndex i => [i]

/-- The operand of a kind at the front of a list of bytes, and the bytes behind
it; nothing if the list is too short. -/
def read? : OperandKind → List UInt8 → Option (Operand × List UInt8)
  | .literal, high :: low :: rest => some (literal (Word.ofBytes high low), rest)
  | .address, high :: low :: rest => some (address (Word.ofBytes high low), rest)
  | .register, selector :: rest =>
    some (register (Register.ofSelector selector), rest)
  | .registerIndex, i :: rest => some (registerIndex i, rest)
  | _, _ => none

/-- Operands of the given kinds, one after another, and the bytes behind the
last. -/
def readAll? : List OperandKind → List UInt8 → Option (List Operand × List UInt8)
  | [], bytes => some ([], bytes)
  | kind :: kinds, bytes => do
    let (operand, bytes) ← read? kind bytes
    let (operands, bytes) ← readAll? kinds bytes
    return (operand :: operands, bytes)

/-- How an operand is written out: a literal in base sixteen, an address
likewise behind `&`, a register by its name, and a raw position by the name of
its register or, where there is none, in base ten behind a sharp sign. -/
def text : Operand → String
  | literal word => Hex.word word
  | address word => "&" ++ Hex.bareWord word
  | register r => r.name
  | registerIndex i =>
    match Register.ofIndex? i.toNat with
    | some r => r.name
    | none => "#" ++ toString i.toNat

theorem kind_eq_literal {operand : Operand} :
    operand.kind = .literal ↔ ∃ word, operand = .literal word := by
  cases operand <;> simp [kind]

theorem kind_eq_address {operand : Operand} :
    operand.kind = .address ↔ ∃ word, operand = .address word := by
  cases operand <;> simp [kind]

theorem kind_eq_register {operand : Operand} :
    operand.kind = .register ↔ ∃ r, operand = .register r := by
  cases operand <;> simp [kind]

theorem kind_eq_registerIndex {operand : Operand} :
    operand.kind = .registerIndex ↔ ∃ i, operand = .registerIndex i := by
  cases operand <;> simp [kind]

@[simp] theorem length_encode (operand : Operand) :
    operand.encode.length = operand.kind.width := by
  cases operand <;> rfl

@[simp] theorem read?_encode (operand : Operand) (rest : List UInt8) :
    read? operand.kind (operand.encode ++ rest) = some (operand, rest) := by
  cases operand <;> simp [kind, encode, read?, Word.toBytes]

/-- An operand that is read has the kind that was asked for and takes the
bytes of its width. -/
theorem read?_spec {kind : OperandKind} {bytes rest : List UInt8}
    {operand : Operand} (h : read? kind bytes = some (operand, rest)) :
    operand.kind = kind ∧ bytes.length = kind.width + rest.length := by
  unfold read? at h
  split at h <;> cases h <;> refine ⟨rfl, ?_⟩ <;>
    simp only [List.length_cons, OperandKind.width] <;> omega

/-- Operands that are read have the kinds asked for and take the bytes of their
width. -/
theorem readAll?_spec {kinds : List OperandKind} {bytes rest : List UInt8}
    {operands : List Operand} (h : readAll? kinds bytes = some (operands, rest)) :
    operands.map kind = kinds ∧
      bytes.length = OperandKind.totalWidth kinds + rest.length := by
  induction kinds generalizing bytes operands with
  | nil =>
    cases h
    exact ⟨rfl, (Nat.zero_add _).symm⟩
  | cons kind kinds ih =>
    simp only [readAll?, Option.bind_eq_bind, Option.bind_eq_some_iff] at h
    obtain ⟨⟨operand, behind⟩, hfirst, ⟨others, left⟩, hrest, heq⟩ := h
    cases heq
    obtain ⟨hkind, hlength⟩ := read?_spec hfirst
    obtain ⟨hkinds, hlengths⟩ := ih hrest
    refine ⟨?_, ?_⟩
    · rw [List.map_cons, hkind, hkinds]
    · rw [hlength, hlengths, OperandKind.totalWidth, Nat.add_assoc]

@[simp] theorem readAll?_encode (operands : List Operand) (rest : List UInt8) :
    readAll? (operands.map kind) (operands.flatMap encode ++ rest) =
      some (operands, rest) := by
  induction operands with
  | nil => rfl
  | cons operand operands ih => simp [readAll?, ih]

end Operand

end StackMachine
