/-!
# Hexadecimal numerals

Addresses, bytes and words are shown in base sixteen, in lower case, at a fixed
width.

## Main definitions

* `Hex.fixed` — exactly so many digits, the most significant first
* `Hex.digits` — as many digits as a number has
* `Hex.pair` — the two digits of a byte
* `Hex.byte`, `Hex.word` — a byte and a word behind the mark `0x`
* `Hex.offset` — a number of any size behind the mark `0x`, with four digits or
  as many as it needs

## Main statements

* `Hex.length_fixed` — the width is kept
* `Hex.fixed_inj` — numbers that fit a width are told apart by their digits
-/

namespace StackMachine.Hex

/-- The last `width` digits of `n`, the most significant first. -/
def fixed : (width n : Nat) → List Char
  | 0, _ => []
  | width + 1, n => fixed width (n / 16) ++ [Nat.digitChar (n % 16)]

/-- How many digits `n` has; zero has one. -/
def digitCount (n : Nat) : Nat := n.log2 / 4 + 1

/-- The digits of `n`, without leading zeros. -/
def digits (n : Nat) : List Char := fixed (digitCount n) n

/-- The two digits of a byte, without a mark. -/
def pair (byte : UInt8) : String := String.ofList (fixed 2 byte.toNat)

/-- A byte behind the mark `0x`. -/
def byte (byte : UInt8) : String := "0x" ++ pair byte

/-- The four digits of a word, without a mark. -/
def bareWord (word : UInt16) : String := String.ofList (fixed 4 word.toNat)

/-- A word behind the mark `0x`. -/
def word (word : UInt16) : String := "0x" ++ bareWord word

/-- A number behind the mark `0x`, padded to four digits when it has fewer. -/
def offset (n : Nat) : String :=
  "0x" ++ String.ofList (fixed (max 4 (digitCount n)) n)

@[simp] theorem length_fixed (width n : Nat) : (fixed width n).length = width := by
  induction width generalizing n with
  | zero => rfl
  | succ width ih => simp [fixed, ih]

/-- Below sixteen, different values have different digits. -/
theorem digitChar_inj : ∀ {a b : Nat}, a < 16 → b < 16 →
    Nat.digitChar a = Nat.digitChar b → a = b := by
  have table : ∀ a : Fin 16, ∀ b : Fin 16,
      Nat.digitChar a.val = Nat.digitChar b.val → a.val = b.val := by decide
  intro a b ha hb h
  exact table ⟨a, ha⟩ ⟨b, hb⟩ h

/-- Numbers that fit are told apart by their digits. -/
theorem fixed_inj {width a b : Nat} (ha : a < Nat.pow 16 width)
    (hb : b < Nat.pow 16 width) (h : fixed width a = fixed width b) : a = b := by
  induction width generalizing a b with
  | zero =>
    have h₀ : Nat.pow 16 0 = 1 := rfl
    omega
  | succ width ih =>
    have hpow : Nat.pow 16 (width + 1) = Nat.pow 16 width * 16 := rfl
    obtain ⟨hinit, hlast⟩ := List.append_inj h (by rw [length_fixed, length_fixed])
    have hdigit : a % 16 = b % 16 :=
      digitChar_inj (Nat.mod_lt _ (by decide)) (Nat.mod_lt _ (by decide))
        (List.singleton_inj.1 hlast)
    have hrest : a / 16 = b / 16 := ih (by omega) (by omega) hinit
    omega

end StackMachine.Hex
