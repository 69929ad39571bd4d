import StackMachine.Memory
import StackMachine.Register.Basic
import StackMachine.Text.Outline

/-!
# The register bank

The registers are kept in a memory of twenty-four bytes of their own, one word
each, in the order of `Register.all`.

## Main definitions

* `Bank` — a memory that holds exactly the registers
* `Bank.zeroed`, `Bank.clear`, `Bank.get`, `Bank.set` — the bank as twelve cells
* `Bank.readIndex` — a register by its raw position, which may lie outside the
  bank
* `Bank.ofMemory`, `Bank.entries`, `Bank.outline`

## Main statements

* `Bank.get_set_self`, `Bank.get_set_of_ne` — the cells are independent
* `Bank.ext_get` — a bank is told by its cells, and so are the laws of a cell
  that is set twice
* `Bank.readIndex_eq` — a raw position is that of a register or lies behind the
  bank
-/

namespace StackMachine

/-- A memory that holds exactly the registers. -/
structure Bank where
  /-- The words of the registers, in order. -/
  memory : Memory
  /-- There is room for the registers and for nothing else. -/
  size_memory : memory.size = 24
deriving DecidableEq

/-- A memory of another size was to become a bank. -/
structure BankSizeMismatch where
  /-- The size of that memory. -/
  size : Nat
deriving DecidableEq, Repr

/-- The wording of a wrong size. -/
def BankSizeMismatch.message (e : BankSizeMismatch) : String :=
  "register bank holds " ++ toString e.size ++ " bytes, expected 24"

namespace Bank

/-- Every register lies inside the bank, so no access to one has to be checked. -/
theorem offset_le (b : Bank) (r : Register) : r.offset + 2 ≤ b.memory.size := by
  have h := r.index_lt
  rw [b.size_memory, Register.offset]
  omega

/-- A bank with every register zero. -/
def zeroed : Bank := ⟨Memory.zeroed 24, Memory.size_zeroed 24⟩

/-- The bank with every register set to zero. -/
def clear (b : Bank) : Bank :=
  ⟨b.memory.clear, by rw [Memory.size_clear, b.size_memory]⟩

/-- A memory as a bank, if it has the size of one. -/
def ofMemory (m : Memory) : Except BankSizeMismatch Bank :=
  if h : m.size = 24 then .ok ⟨m, h⟩ else .error ⟨m.size⟩

/-- The word in a register. -/
def get (b : Bank) (r : Register) : UInt16 :=
  b.memory.wordAt r.offset (b.offset_le r)

/-- The bank with another word in one register. -/
def set (b : Bank) (r : Register) (value : UInt16) : Bank :=
  ⟨b.memory.setWord r.offset value
    (b.offset_le r), by rw [Memory.size_setWord, b.size_memory]⟩

/-- The word at a raw position.  Nothing is taken modulo the number of
registers, so positions from twelve on lie outside the bank. -/
def readIndex (b : Bank) (i : UInt8) : Except OutOfBounds UInt16 :=
  b.memory.readWord (2 * i.toNat)

/-- Every register with its word, in order. -/
def entries (b : Bank) : List (Register × UInt16) :=
  Register.all.map fun r => (r, b.get r)

/-- The bank as a table from names to words. -/
def outline (b : Bank) : Outline :=
  .table (b.entries.map fun entry => (entry.1.name, .leaf (Hex.word entry.2)))

@[simp] theorem get_zeroed (r : Register) : zeroed.get r = 0 := by cases r <;> rfl

@[simp] theorem get_set_self (b : Bank) (r : Register) (value : UInt16) :
    (b.set r value).get r = value := by
  simp [get, set]

theorem get_set_of_ne (b : Bank) {r s : Register} (value : UInt16) (h : r ≠ s) :
    (b.set r value).get s = b.get s := by
  have hi : r.index ≠ s.index := fun e => h (Register.index_inj e)
  simp only [get, set, Memory.wordAt, Memory.setWord, Register.offset,
    Array.getElem_set]
  rw [if_neg (by omega), if_neg (by omega), if_neg (by omega), if_neg (by omega)]

/-- A bank after one register is set, as a table from registers to words. -/
theorem get_set (b : Bank) (r s : Register) (value : UInt16) :
    (b.set r value).get s = if r = s then value else b.get s := by
  split
  · next h => rw [h, get_set_self]
  · next h => exact get_set_of_ne b value h

/-- A register is two neighbouring bytes of the bank, the high one first.  This
ties the words of the registers to the bytes of a snapshot. -/
theorem byte_eq (b : Bank) (r : Register) :
    b.memory.bytes[2 * r.index]? = some (Word.high (b.get r)) ∧
      b.memory.bytes[2 * r.index + 1]? = some (Word.low (b.get r)) := by
  have h := b.offset_le r
  simp only [Register.offset, Memory.size] at h
  constructor
  · rw [Array.getElem?_eq_getElem (by omega)]
    simp [get, Memory.wordAt, Register.offset]
  · rw [Array.getElem?_eq_getElem (by omega)]
    simp [get, Memory.wordAt, Register.offset]

/-- Banks that hold the same words are equal.  Statements about all registers
become equations between banks through it. -/
theorem ext_get {b c : Bank} (h : ∀ r, b.get r = c.get r) : b = c := by
  have hbytes : b.memory.bytes = c.memory.bytes := by
    apply Array.ext_getElem?
    intro i
    by_cases hi : i < 24
    · obtain ⟨r, hr⟩ : ∃ r : Register, r.index = i / 2 :=
        ⟨_, Register.index_get_all ⟨i / 2, by change i / 2 < 12; omega⟩⟩
      obtain ⟨hb₁, hb₂⟩ := b.byte_eq r
      obtain ⟨hc₁, hc₂⟩ := c.byte_eq r
      rcases Nat.mod_two_eq_zero_or_one i with hlow | hlow
      · rw [show i = 2 * r.index by omega, hb₁, hc₁, h r]
      · rw [show i = 2 * r.index + 1 by omega, hb₂, hc₂, h r]
    · have hb := b.size_memory
      have hc := c.size_memory
      simp only [Memory.size] at hb hc
      rw [Array.getElem?_eq_none (by omega), Array.getElem?_eq_none (by omega)]
  obtain ⟨⟨b⟩, hb⟩ := b
  obtain ⟨⟨c⟩, hc⟩ := c
  cases hbytes
  rfl

@[simp] theorem set_set (b : Bank) (r : Register) (v w : UInt16) :
    (b.set r v).set r w = b.set r w := by
  apply ext_get
  intro s
  simp only [get_set]
  split <;> rfl

@[simp] theorem set_get (b : Bank) (r : Register) : b.set r (b.get r) = b := by
  apply ext_get
  intro s
  rw [get_set]
  split
  · next h => rw [h]
  · rfl

/-- A raw position has a register exactly if it is below twelve.  Unlike a
selector it is not reduced first. -/
theorem readIndex_eq (b : Bank) (i : UInt8) :
    b.readIndex i =
      match Register.ofIndex? i.toNat with
      | some r => .ok (b.get r)
      | none => .error ⟨2 * i.toNat, 2, 24⟩ := by
  cases hr : Register.ofIndex? i.toNat with
  | some r =>
    rw [readIndex, ← Register.ofIndex?_eq_some_iff.1 hr]
    exact Memory.readWord_of_le (b.offset_le r)
  | none =>
    have hsize := b.size_memory
    have hi := Register.ofIndex?_eq_none_iff.1 hr
    rw [readIndex, Memory.readWord_of_lt (by omega), hsize]

end Bank

end StackMachine
