/-!
# Blank characters

A numeral or a register name may stand between blanks, which are dropped before
it is read.  The blanks are the twenty-five characters that Unicode gives the
property `White_Space`.

## Main definitions

* `Blank.isBlank` — whether a character is a blank
* `Blank.trimChars` — a text without the blanks at its two ends

## Main statements

* `Blank.trimChars_of_no_blank` — a text without blanks is left as it is
-/

namespace StackMachine.Blank

/-- Whether a character has the property `White_Space`. -/
def isBlank (c : Char) : Bool :=
  let n := c.toNat
  (0x9 ≤ n && n ≤ 0xd) || n == 0x20 || n == 0x85 || n == 0xa0 || n == 0x1680 ||
    (0x2000 ≤ n && n ≤ 0x200a) || n == 0x2028 || n == 0x2029 || n ==
      0x202f || n == 0x205f ||
    n == 0x3000

/-- A list of characters without the blanks in front. -/
def dropFront (text : List Char) : List Char := text.dropWhile isBlank

/-- A list of characters without the blanks in front and behind. -/
def trimChars (text : List Char) : List Char :=
  (dropFront (dropFront text).reverse).reverse

/-- Only the first character says whether anything is dropped. -/
theorem dropFront_of_head {text : List Char} (h : ∀ c ∈ text.head?, ¬isBlank c) :
    dropFront text = text := by
  cases text with
  | nil => rfl
  | cons c rest => exact List.dropWhile_cons_of_neg (h c rfl)

/-- A text without blanks is left as it is.  This is how a numeral is read whose
digits are known: there is nothing to trim in front of them or behind. -/
theorem trimChars_of_no_blank {text : List Char}
    (h : ∀ c ∈ text, isBlank c = false) :
    trimChars text = text := by
  have hfront : dropFront text = text := by
    refine dropFront_of_head fun c hc => ?_
    simp [h c (List.mem_of_mem_head? hc)]
  have hback : dropFront text.reverse = text.reverse := by
    refine dropFront_of_head fun c hc => ?_
    simp [h c (List.mem_reverse.1 (List.mem_of_mem_head? hc))]
  rw [trimChars, hfront, hback, List.reverse_reverse]

end StackMachine.Blank
