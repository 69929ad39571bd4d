import StackMachine.Text.Blank
import StackMachine.Text.Quoted

/-!
# Reading natural numbers

A numeral is a run of digits in some base, with at most one plus sign in front
and any number of leading zeros.  Digits above nine are letters of either case.
A value has a largest number that it can hold.

## Main definitions

* `Numeral.Fault` — why a text is not a numeral
* `Numeral.digitValue?` — what a character counts in a base
* `Numeral.accumulate` — the number that a run of digits denotes
* `Numeral.read` — the same with the sign taken off
* `Numeral.readWord` — a word between blanks, in base ten or marked as in base
  sixteen

## Design notes

**The first fault wins.**  Digits are read from the left.  A character that is
no digit is a fault where it stands, and so is the digit that makes the number
too large; the one further left is reported.  So a long numeral with a bad
character at its end is too large.

**A lone sign is a bad character,** not an empty numeral.
-/

namespace StackMachine.Numeral

/-- Why a text is not a numeral. -/
inductive Fault where
  /-- There are no digits. -/
  | empty
  /-- A character is no digit of the base. -/
  | invalidDigit
  /-- The number is larger than the largest that can be held. -/
  | tooLarge
deriving DecidableEq, Repr

/-- The wording of a fault. -/
def Fault.message : Fault → String
  | .empty => "cannot parse integer from empty string"
  | .invalidDigit => "invalid digit found in string"
  | .tooLarge => "number too large to fit in target type"

/-- What a character counts as a digit, if it is one of the base; letters
count from ten on. -/
def digitValue? (base : Nat) (c : Char) : Option Nat :=
  let n := c.toNat
  let value? : Option Nat :=
    if 0x30 ≤ n ∧ n ≤ 0x39 then some (n - 0x30)
    else if 0x61 ≤ n ∧ n ≤ 0x7a then some (n - 0x61 + 10)
    else if 0x41 ≤ n ∧ n ≤ 0x5a then some (n - 0x41 + 10)
    else none
  value?.filter (· < base)

/-- The number denoted by `value` followed by the given digits, none of whose
beginnings may exceed `largest`. -/
def accumulate (base largest : Nat) : (value : Nat) → List Char → Except Fault Nat
  | value, [] => .ok value
  | value, c :: rest =>
    match digitValue? base c with
    | none => .error .invalidDigit
    | some digit =>
      if base * value + digit ≤ largest then
        accumulate base largest (base * value + digit) rest
      else .error .tooLarge

/-- The number that a text denotes in a base, if it is at most `largest`. -/
def read (base largest : Nat) : List Char → Except Fault Nat
  | [] => .error .empty
  | ['+'] => .error .invalidDigit
  | '+' :: digits => accumulate base largest 0 digits
  | digits => accumulate base largest 0 digits

/-- A text that was asked to denote a word and does not. -/
structure WordFault where
  /-- The text between its blanks. -/
  text : String
  /-- What is wrong with it. -/
  fault : Fault
deriving DecidableEq, Repr

/-- The wording of a text that is no word. -/
def WordFault.message (e : WordFault) : String :=
  "invalid 16-bit value " ++ Quoted.quote e.text ++ ": " ++ e.fault.message

/-- The word that a text denotes between blanks: in base sixteen behind the mark
`0x` or `0X`, and in base ten without it. -/
def readWord (text : String) : Except WordFault UInt16 :=
  let chars := Blank.trimChars text.toList
  let value :=
    match chars with
    | '0' :: 'x' :: digits => read 16 0xffff digits
    | '0' :: 'X' :: digits => read 16 0xffff digits
    | digits => read 10 0xffff digits
  match value with
  | .ok n => .ok (UInt16.ofNat n)
  | .error fault => .error ⟨String.ofList chars, fault⟩

end StackMachine.Numeral
