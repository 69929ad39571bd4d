import StackMachine.Proofs.Literals
import StackMachine.Proofs.NumberForms

/-!
# The forms of texts

Between its quotes a text is a row of characters that stand for themselves and
of escapes.  That is what is read as a text, and if the escapes by number are
characters, it denotes what it should.

## Main definitions

* `Json.escapes` — the letters behind a backslash and what they stand for
* `Json.TextForm` — characters that are a text
* `Json.Denotes` — the characters that a text denotes

## Main statements

* `Json.isText_of_textForm` — what has the form of a text is read as one
* `Json.content?_eq_some_iff` — the content of a text is what it denotes

## Design notes

**A character beyond sixteen bits takes two escapes.**  Its number is that of
the pair less the first number that needs one, in two halves of ten bits.  Half
of a pair has the form of an escape and denotes nothing, so there are texts
without content, and `Denotes` says less than `TextForm`.
-/

namespace StackMachine.Json

open Scanner (Reads reads_nil reads_of_step)

variable {c : Char} {digits rest literal : List Char}

/-! ### How a text is written -/

/-- The letters that may stand behind a backslash, with the characters for
which they stand. -/
def escapes : List (Char × Char) :=
  [('"', '"'), ('\\', '\\'), ('/', '/'), ('b', '\x08'), ('f', '\x0c'),
    ('n', '\n'), ('r', '\r'), ('t', '\t')]

/-- A text: characters that stand for themselves, escapes by a letter, and
escapes by a number of four digits in base sixteen. -/
inductive TextForm : List Char → Prop where
  | nil : TextForm []
  | plain {c : Char} {rest : List Char} (hc : isPlainChar c)
      (hrest : TextForm rest) :
    TextForm (c :: rest)
  | escape {letter c : Char} {rest : List Char} (hletter : (letter, c) ∈ escapes)
    (hrest : TextForm rest) : TextForm ('\\' :: letter :: rest)
  | code {digits rest : List Char} {value : Nat} (hlength : digits.length = 4)
    (hvalue : Numeral.Denotes 16 digits value) (hrest : TextForm rest) :
    TextForm ('\\' :: 'u' :: (digits ++ rest))

/-- What a text denotes.  A number stands for the character of that number, and
two numbers for the character that they encode together; half of such a pair
stands for nothing. -/
inductive Denotes : List Char → List Char → Prop where
  | nil : Denotes [] []
  | plain {c : Char} {rest chars : List Char} (hc : isPlainChar c)
      (hrest : Denotes rest chars) :
    Denotes (c :: rest) (c :: chars)
  | escape {letter c : Char} {rest chars : List Char}
      (hletter : (letter, c) ∈ escapes)
    (hrest : Denotes rest chars) : Denotes ('\\' :: letter :: rest) (c :: chars)
  | code {c : Char} {digits rest chars : List Char} (hlength : digits.length = 4)
    (hvalue : Numeral.Denotes 16 digits c.toNat) (hrest : Denotes rest chars) :
    Denotes ('\\' :: 'u' :: (digits ++ rest)) (c :: chars)
  | pair {c : Char} {high low rest chars : List Char} {a b : Nat}
      (hhighLength : high.length = 4)
    (hlowLength : low.length = 4) (hhigh : Numeral.Denotes 16 high (0xd800 + a))
    (hlow : Numeral.Denotes 16 low (0xdc00 + b)) (ha : a < 0x400) (hb : b < 0x400)
    (hc : c.toNat = 0x10000 + a * 0x400 + b) (hrest : Denotes rest chars) :
    Denotes ('\\' :: 'u' :: (high ++ '\\' :: 'u' :: (low ++ rest))) (c :: chars)

/-- What denotes something has the form of a text.  The converse fails for one
half of a pair without the other. -/
theorem Denotes.textForm {chars : List Char} (h : Denotes literal chars) :
    TextForm literal := by
  induction h with
  | nil => exact .nil
  | plain hc _ ih => exact .plain hc ih
  | escape hletter _ ih => exact .escape hletter ih
  | code hlength hvalue _ ih => exact .code hlength hvalue ih
  | pair hhighLength hlowLength hhigh hlow _ _ _ _ ih =>
    exact .code hhighLength hhigh (.code hlowLength hlow ih)

/-- The digits of an escape are taken one by one, and the text goes on behind
the last. -/
theorem reads_code (left : Nat) (hlength : digits.length = left + 1)
    (hdigits : ∀ c ∈ digits, isHexDigit c) (read : List Char) :
    Reads (.code (left + 1) read) digits (.text (digits.reverse ++ read)) [] := by
  induction left generalizing digits read with
  | zero =>
    obtain ⟨c, rfl⟩ := List.length_eq_one_iff.1 hlength
    have hc := hdigits c List.mem_cons_self
    refine reads_of_step ?_
    simp [Scanner.step, hc]
  | succ left ih =>
    obtain ⟨c, rest, rfl⟩ := List.exists_cons_of_length_eq_add_one hlength
    obtain ⟨hc, hrest⟩ := List.forall_mem_cons.1 hdigits
    have hstep : (Scanner.code (left + 2) read).step c =
        some (.code (left + 1) (c :: read), []) := by
      simp [Scanner.step, hc]
    rw [List.reverse_cons, List.append_assoc]
    exact (reads_of_step hstep).append (ih (Nat.succ.inj hlength) hrest (c :: read))

theorem isHexDigit_of_denotes {value : Nat} (h : Numeral.Denotes 16 digits value) :
    ∀ c ∈ digits, isHexDigit c :=
  ((denotes_iff_foldl isDigit_sixteen_iff).1 h).1

/-- What has the form of a text is read as one.  What was read before it is
arbitrary, so that the parts of a text can be read one after another. -/
theorem reads_of_textForm (h : TextForm literal) (read : List Char) :
    Reads (.text read) literal (.text (literal.reverse ++ read)) [] := by
  induction h generalizing read with
  | nil => exact reads_nil _
  | @plain c rest hc _ ih =>
    have hplain : IsPlain [c] := by simpa [IsPlain] using hc
    have hreads := (reads_of_isPlain hplain read).append (ih (c :: read))
    simpa using hreads
  | @escape letter c rest hletter _ ih =>
    have hall : ∀ pair ∈ escapes, pair.1 ≠ 'u' ∧
        pair.1 ∈ ['"', '\\', '/', 'b', 'f', 'n', 'r', 't'] := by
      decide
    obtain ⟨hcode, hmem⟩ := hall (letter, c) hletter
    have hopen : Reads (.text read) ['\\'] (.escape ('\\' :: read)) [] :=
      reads_of_step rfl
    have hstep : (Scanner.escape ('\\' :: read)).step letter =
        some (.text (letter :: '\\' :: read), []) := by
      rw [Scanner.step, if_neg hcode, if_pos hmem]
    have hreads :=
      hopen.append ((reads_of_step hstep).append (ih (letter :: '\\' :: read)))
    simpa using hreads
  | @code digits rest value hlength hvalue _ ih =>
    have hopen :
        Reads (.text read) ['\\', 'u'] (.code 4 ('u' :: '\\' :: read)) [] :=
      fun _ _ => rfl
    have hdigits :=
      reads_code 3 hlength (isHexDigit_of_denotes hvalue) ('u' :: '\\' :: read)
    have hreads :=
      hopen.append (hdigits.append (ih (digits.reverse ++ 'u' :: '\\' :: read)))
    simpa using hreads

theorem isText_of_textForm (h : TextForm literal) : IsText literal := by
  have hreads := reads_of_textForm h []
  rwa [List.append_nil] at hreads

/-! ### What a text denotes -/

variable {high low value : Nat} {chars : List Char} {found : List Piece}

theorem pieces_plain (hc : isPlainChar c) (rest : List Char) :
    pieces (c :: rest) = .char c :: pieces rest := by
  have hplain : IsPlain [c] := by simpa [IsPlain] using hc
  exact pieces_cons (isPlain_cons hplain).2.1 rest

theorem pieces_escape {letter : Char} (hletter : (letter, c) ∈ escapes)
    (rest : List Char) :
    pieces ('\\' :: letter :: rest) = .char c :: pieces rest := by
  have hall : ∀ pair ∈ escapes, pair.1 ≠ 'u' ∧ escaped pair.1 = pair.2 := by decide
  obtain ⟨hcode, hescaped⟩ := hall (letter, c) hletter
  rw [pieces, hescaped]
  exact fun _ _ _ _ _ hc _ => hcode hc

/-- An escape of four digits stands for a unit, which may be a character or
one half of a pair. -/
theorem pieces_code (hlength : digits.length = 4)
    (hvalue : Numeral.Denotes 16 digits value) (rest : List Char) :
    pieces ('\\' :: 'u' :: (digits ++ rest)) = .unit value :: pieces rest := by
  match digits, hlength with
  | [a, b, c, d], _ =>
    obtain ⟨-, rfl⟩ := denotes_sixteen_iff.1 hvalue
    rfl

theorem isHigh_iff : isHigh value ↔ 0xd800 ≤ value ∧ value ≤ 0xdbff := by
  simp [isHigh]

/-- The second halves of pairs, as numbers.  They follow directly on
the first halves. -/
theorem isLow_iff : isLow value ↔ 0xdc00 ≤ value ∧ value ≤ 0xdfff := by simp [isLow]

/-- A unit that is no half of a pair stands for its character. -/
theorem join_unit (hhigh : ¬isHigh value) (hlow : ¬isLow value)
    (rest : List Piece) :
    join (.unit value :: rest) = (join rest).map (Char.ofNat value :: ·) := by
  cases rest with
  | nil => simp [join, hhigh, hlow]
  | cons piece rest => cases piece <;> simp [join, hhigh, hlow]

/-- The two halves of a pair stand for the character that they encode. -/
theorem join_pair (hhigh : isHigh high) (hlow : isLow low) (rest : List Piece) :
    join (.unit high :: .unit low :: rest) =
      (join rest).map
        (Char.ofNat (0x10000 + (high - 0xd800) * 0x400 + (low - 0xdc00)) :: ·) := by
  rw [join, if_pos hhigh, if_pos hlow]

/-- A unit stands for something only if it is no half of a pair, or the first
half and the second follows.  A half by itself stands for nothing, and neither
does the text around it. -/
theorem join_unit_cases {rest : List Piece}
    (h : join (.unit value :: rest) = some chars) :
    ¬isHigh value ∧ ¬isLow value ∨
      isHigh value ∧ ∃ low others, rest = .unit low :: others ∧ isLow low := by
  by_cases hhigh : isHigh value
  · refine .inr ⟨hhigh, ?_⟩
    rcases rest with _ | ⟨_ | low, others⟩
    · simp [join, hhigh] at h
    · simp [join, hhigh] at h
    · by_cases hlow : isLow low
      · exact ⟨low, others, rfl, hlow⟩
      · simp [join, hhigh, hlow] at h
  · refine .inl ⟨hhigh, fun hlow => ?_⟩
    rcases rest with _ | ⟨_ | next, others⟩ <;> simp [join, hhigh, hlow] at h

/-- The pieces of a literal make up the characters that it denotes. -/
theorem join_of_denotes (h : Denotes literal chars) :
    join (pieces literal) = some chars := by
  induction h with
  | nil => rfl
  | plain hc _ ih => rw [pieces_plain hc, join, ih, Option.map_some]
  | escape hletter _ ih => rw [pieces_escape hletter, join, ih, Option.map_some]
  | @code c digits rest chars hlength hvalue _ ih =>
    -- The number of a character is never that of a half.
    have hvalid : c.toNat < 0xd800 ∨ 0xdfff < c.toNat ∧
        c.toNat < 0x110000 := c.valid
    have hhigh : ¬isHigh c.toNat := by rw [isHigh_iff]; omega
    have hlow : ¬isLow c.toNat := by rw [isLow_iff]; omega
    rw [pieces_code hlength hvalue, join_unit hhigh hlow, ih, Char.ofNat_toNat,
      Option.map_some]
  | @pair c high low rest chars a b hhighLength hlowLength hhigh hlow
      ha hb hc _ ih =>
    have hfirst : isHigh (0xd800 + a) := isHigh_iff.2 (by omega)
    have hsecond : isLow (0xdc00 + b) := isLow_iff.2 (by omega)
    rw [pieces_code hhighLength hhigh, pieces_code hlowLength hlow,
      join_pair hfirst hsecond, Nat.add_sub_cancel_left,
      Nat.add_sub_cancel_left, ← hc, ih, Char.ofNat_toNat, Option.map_some]

/-- Behind the first half of a pair stands the escape of the second.  Units come
from such escapes only, so the literal can be taken apart in front of it. -/
theorem code_of_pieces_eq_unit (h : TextForm literal)
    (hunit : pieces literal = .unit low :: found) :
    ∃ digits rest, literal = '\\' :: 'u' :: (digits ++ rest) ∧ digits.length = 4 ∧
      Numeral.Denotes 16 digits low ∧ TextForm rest ∧ found = pieces rest := by
  cases h with
  | nil => cases hunit
  | plain hc hrest =>
    rw [pieces_plain hc] at hunit
    cases hunit
  | escape hletter hrest =>
    rw [pieces_escape hletter] at hunit
    cases hunit
  | code hlength hvalue hrest =>
    rw [pieces_code hlength hvalue] at hunit
    cases hunit
    exact ⟨_, _, rfl, hlength, hvalue, hrest, rfl⟩

/-- A number that belongs to a character is the number of that character.  The
gap is that of the halves of pairs. -/
theorem toNat_ofNat (h : value < 0xd800 ∨ 0xdfff < value ∧ value < 0x110000) :
    (Char.ofNat value).toNat = value := by
  rw [Char.ofNat, dif_pos h]
  rfl

/-- What stands behind an escape is shorter than the text with it.  The
recursion through pairs goes down by this. -/
theorem length_lt_code (digits rest : List Char) :
    rest.length < ('\\' :: 'u' :: (digits ++ rest)).length := by
  simp only [List.length_cons, List.length_append]
  omega

/-- A text of the right form denotes the characters for which its pieces
stand. A pair takes two pieces at once, so the induction is on the
length of the text. -/
theorem denotes_of_join (h : TextForm literal)
    (hjoin : join (pieces literal) = some chars) :
    Denotes literal chars := by
  induction hlength :
    literal.length using Nat.strongRecOn generalizing literal chars with
  | ind length ih =>
    subst hlength
    cases h with
    | nil =>
      cases hjoin
      exact .nil
    | @plain c rest hc hrest =>
      rw [pieces_plain hc] at hjoin
      obtain ⟨others, hothers, rfl⟩ := Option.map_eq_some_iff.1 hjoin
      exact .plain hc (ih _ (Nat.lt_succ_self _) hrest hothers rfl)
    | @escape letter c rest hletter hrest =>
      rw [pieces_escape hletter] at hjoin
      obtain ⟨others, hothers, rfl⟩ := Option.map_eq_some_iff.1 hjoin
      have hshorter : rest.length < ('\\' :: letter :: rest).length :=
        Nat.lt_succ_of_lt (Nat.lt_succ_self _)
      exact .escape hletter (ih _ hshorter hrest hothers rfl)
    | @code digits rest value hlength hvalue hrest =>
      have hsmall : value < 16 ^ 4 := hlength ▸ lt_of_denotes hvalue
      rw [pieces_code hlength hvalue] at hjoin
      rcases join_unit_cases hjoin with
        ⟨hhigh, hlow⟩ | ⟨hhigh, low, found, hunit, hlow⟩
      · rw [join_unit hhigh hlow] at hjoin
        obtain ⟨others, hothers, rfl⟩ := Option.map_eq_some_iff.1 hjoin
        rw [isHigh_iff] at hhigh
        rw [isLow_iff] at hlow
        have hchar : (Char.ofNat value).toNat = value := toNat_ofNat (by omega)
        exact .code hlength (hchar.symm ▸ hvalue)
          (ih _ (length_lt_code digits rest) hrest hothers rfl)
      · rw [hunit, join_pair hhigh hlow] at hjoin
        obtain ⟨others, hothers, rfl⟩ := Option.map_eq_some_iff.1 hjoin
        obtain ⟨lowDigits, last, rfl, hlowLength, hlowValue, hlast, rfl⟩ :=
          code_of_pieces_eq_unit hrest hunit
        have hshorter :=
          (length_lt_code lowDigits last).trans (length_lt_code digits _)
        obtain ⟨hhighest, hhigh⟩ := isHigh_iff.1 hhigh
        obtain ⟨hlowest, hlow⟩ := isLow_iff.1 hlow
        obtain ⟨a, rfl⟩ := Nat.exists_eq_add_of_le hhighest
        obtain ⟨b, rfl⟩ := Nat.exists_eq_add_of_le hlowest
        rw [Nat.add_sub_cancel_left, Nat.add_sub_cancel_left]
        exact .pair hlength hlowLength hvalue hlowValue (by omega) (by omega)
          (toNat_ofNat (by omega)) (ih _ hshorter hlast hothers rfl)

/-- A literal of the right form has the content that it denotes, and has none if
it denotes nothing. -/
theorem content?_eq_some_iff (h : TextForm literal) {text : String} :
    content? literal = some text ↔ Denotes literal text.toList := by
  rw [content?, Option.map_eq_some_iff]
  constructor
  · rintro ⟨chars, hjoin, rfl⟩
    rw [String.toList_ofList]
    exact denotes_of_join h hjoin
  · intro hdenotes
    exact ⟨text.toList, join_of_denotes hdenotes, String.ofList_toList⟩

end StackMachine.Json
