import StackMachine.Text.Blank
import StackMachine.Text.Quoted

/-!
# Registers

The machine has twelve registers.  Their order is part of the machine: a
selector byte picks a register by its position, and the register bank holds the
registers in this order.

## Main definitions

* `Register`, `Register.all`, `Register.index`, `Register.offset`
* `Register.ofIndex?` — the register at a position, if there is one
* `Register.ofSelector` — the register that a byte selects, which is always some
  register
* `Register.general` — the registers that a call saves, in the order in which it
  saves them
* `Register.name`, `Register.named?`, `Register.parse` — registers as text

## Main statements

* `Register.ofIndex?_index`, `Register.ofSelector_selector` — a register is
  found by its position
* `Register.named?_name` — a register is found by its name
-/

namespace StackMachine

/-- A register of the machine. -/
inductive Register where
  /-- The instruction pointer. -/
  | ip
  /-- The accumulator. -/
  | acc
  | r1 | r2 | r3 | r4 | r5 | r6 | r7 | r8
  /-- The stack pointer. -/
  | sp
  /-- The frame pointer. -/
  | fp
deriving DecidableEq, Repr

/-- A text that was asked to name a register and does not. -/
structure UnknownRegister where
  /-- The text as it was given. -/
  name : String
deriving DecidableEq, Repr

/-- The wording of an unknown register. -/
def UnknownRegister.message (e : UnknownRegister) : String :=
  "register " ++ Quoted.quote e.name ++ " does not exist"

namespace Register

/-- Every register, in the order of the bank. -/
def all : List Register := [ip, acc, r1, r2, r3, r4, r5, r6, r7, r8, sp, fp]

/-- The general registers, in the order in which a call saves them. -/
def general : List Register := [r1, r2, r3, r4, r5, r6, r7, r8]

/-- The position of a register in the bank. -/
def index : Register → Nat
  | ip => 0 | acc => 1
  | r1 => 2 | r2 => 3 | r3 => 4 | r4 => 5 | r5 => 6 | r6 => 7 | r7 => 8 | r8 => 9
  | sp => 10 | fp => 11

/-- Where the word of a register starts in the bank. -/
def offset (r : Register) : Nat := 2 * r.index

/-- The register at a position. -/
def ofIndex? (i : Nat) : Option Register := all[i]?

theorem index_lt (r : Register) : r.index < 12 := by cases r <;> decide

theorem index_inj {r s : Register} (h : r.index = s.index) : r = s := by
  cases r <;> cases s <;> simp_all [index]

@[simp] theorem ofIndex?_index (r : Register) :
    ofIndex? r.index = some r := by cases r <;> rfl

theorem index_get_all : ∀ i : Fin all.length, (all.get i).index = i := by decide

/-- A position belongs to one register at most. -/
theorem ofIndex?_eq_some_iff {i : Nat} {r : Register} :
    ofIndex? i = some r ↔ r.index = i := by
  constructor
  · intro h
    obtain ⟨hi, rfl⟩ := List.getElem?_eq_some_iff.1 h
    exact index_get_all ⟨i, hi⟩
  · rintro rfl
    exact ofIndex?_index r

/-- The positions without a register are those from twelve on. -/
theorem ofIndex?_eq_none_iff {i : Nat} : ofIndex? i = none ↔ 12 ≤ i :=
  List.getElem?_eq_none_iff

/-- The register that a byte selects: its position is the byte modulo the
number of registers. -/
def ofSelector (selector : UInt8) : Register :=
  all.get ⟨selector.toNat % 12, Nat.mod_lt _ (by decide)⟩

/-- The byte that selects a register and is also its position. -/
def selector (r : Register) : UInt8 := UInt8.ofNat r.index

@[simp] theorem toNat_selector (r : Register) :
    r.selector.toNat = r.index := by cases r <;> rfl

@[simp] theorem ofSelector_selector (r : Register) : ofSelector r.selector = r := by
  cases r <;> rfl

/-- The name of a register, in lower case. -/
def name : Register → String
  | ip => "ip" | acc => "acc"
  | r1 => "r1" | r2 => "r2" | r3 => "r3" | r4 => "r4"
  | r5 => "r5" | r6 => "r6" | r7 => "r7" | r8 => "r8"
  | sp => "sp" | fp => "fp"

/-- The register with exactly this name. -/
def named? (name : String) : Option Register := all.find? (·.name = name)

@[simp] theorem named?_name (r : Register) :
    named? r.name = some r := by cases r <;> rfl

/-- The register that a text names, between blanks and in either case of the
letters `a` to `z`. -/
def parse (text : String) : Except UnknownRegister Register :=
  match named? (String.ofList ((Blank.trimChars text.toList).map Char.toLower)) with
  | some r => .ok r
  | none => .error ⟨text⟩

end Register

end StackMachine
