import StackMachine.Json.Basic

/-!
# What literals denote

## Main definitions

* `Json.content?` — the characters that a text denotes
* `Json.natural?` — the natural number that a document denotes, if it is at most
  a given one

## Design notes

**A numeric escape is a unit of sixteen bits,** not a character.  Units in the
range of the surrogates stand for a character in pairs only, a high one directly
followed by a low one; any other use leaves the text without content.  So
escapes are first resolved one by one and then put together.

**An integer is written as one:** with digits only.  A sign, a point or an
exponent makes a number that is no integer here, whatever its value.
-/

namespace StackMachine.Json

/-- What a character or an escape stands for. -/
inductive Piece where
  /-- A character. -/
  | char (c : Char)
  /-- A unit of sixteen bits. -/
  | unit (value : Nat)
deriving DecidableEq, Repr

/-- The value of a digit in base sixteen, in either case. -/
def hexValue (c : Char) : Nat :=
  if c.isDigit then c.toNat - 0x30 else if c.toNat < 0x61 then c.toNat - 0x37
  else c.toNat - 0x57

/-- The character for which a letter behind a backslash stands. -/
def escaped (c : Char) : Char :=
  if c = 'b' then '\x08'
  else if c = 'f' then '\x0c'
  else if c = 'n' then '\n'
  else if c = 'r' then '\r'
  else if c = 't' then '\t'
  else c

/-- The characters and escapes of a literal, one by one. -/
def pieces : List Char → List Piece
  | '\\' :: 'u' :: a :: b :: c :: d :: rest =>
    .unit (hexValue a * 0x1000 + hexValue b * 0x100 +
      hexValue c * 0x10 + hexValue d) ::
      pieces rest
  | '\\' :: c :: rest => .char (escaped c) :: pieces rest
  | c :: rest => .char c :: pieces rest
  | [] => []

/-- Whether a unit is the first half of a pair. -/
def isHigh (value : Nat) : Bool := 0xd800 ≤ value && value ≤ 0xdbff

/-- Whether a unit is the second half of a pair. -/
def isLow (value : Nat) : Bool := 0xdc00 ≤ value && value ≤ 0xdfff

/-- The characters for which pieces stand, if every half of a pair has its other
half. -/
def join : List Piece → Option (List Char)
  | [] => some []
  | .char c :: rest => (join rest).map (c :: ·)
  | .unit high :: .unit low :: rest =>
    if isHigh high then
      if isLow low then
        (join rest).map
          (Char.ofNat (0x10000 + (high - 0xd800) * 0x400 + (low - 0xdc00)) :: ·)
      else none
    else if isLow high then none
    else (join (.unit low :: rest)).map (Char.ofNat high :: ·)
  | .unit value :: rest =>
    if isHigh value || isLow value then none
    else (join rest).map (Char.ofNat value :: ·)

/-- The text that a literal denotes, if it denotes one. -/
def content? (literal : List Char) : Option String :=
  (join (pieces literal)).map String.ofList

/-- The number denoted by digits in base ten. -/
def decimalValue (digits : List Char) : Nat :=
  digits.foldl (fun value c => 10 * value + (c.toNat - 0x30)) 0

/-- The natural number that a document denotes, if it is written with digits
only and is at most `largest`. -/
def natural? (largest : Nat) : Json → Option Nat
  | number literal =>
    if literal.all Char.isDigit ∧ decimalValue literal ≤ largest then
      some (decimalValue literal)
    else none
  | _ => none

end StackMachine.Json
