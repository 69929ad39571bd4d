import Mathlib.Data.List.DropRight
import Mathlib.Data.List.Forall2
import Mathlib.Data.Nat.Digits.Defs
import StackMachine.Text.Hex
import StackMachine.Text.Numeral

/-!
# The texts of words

A text denotes a word if, without the blanks at its ends, it is a decimal
numeral, or a hexadecimal one behind its mark, and the number is small enough.
How long the run of digits is does not matter.

## Main definitions

* `Numeral.IsDigit`, `Numeral.Denotes` — digits of a base, and the number that a
  run of them denotes
* `Numeral.IsNumeral` — a run of digits with at most one plus sign in front
* `Numeral.ComesTo`, `Numeral.Fails` — what comes of characters that should be
  digits, and what is wrong with a text that is no numeral, or too large a one
* `Numeral.Marked`, `Numeral.IsWord`, `Numeral.IsNoWord` — the same for both
  bases
* `Blank.Trimmed` — a text without the blanks around it

## Main statements

* `Numeral.ComesTo.eq` — a run of characters comes to one thing only
* `Numeral.read_eq_ok_iff`, `Numeral.read_eq_error_iff` — what is read in one
  base
* `Numeral.words_read_exactly` — what is read as a word, and what is wrong with
  every other text

## Design notes

**Numbers are not bounded.**  The number that a run of digits denotes is given
by the library, from the values of the digits, and is compared with the bound
afterwards.  Reading compares at every digit; that this is the same rests on a
longer run denoting no smaller a number (`Numeral.Denotes.le_of_append`).
-/

namespace StackMachine

/-! ### Blanks -/

namespace Blank

/-- The second text is what is left of the first without the blanks at its two
ends. -/
structure Trimmed (text inner : List Char) : Prop where
  /-- Nothing but blanks has been taken off. -/
  blanks : ∃ front back, text = front ++ inner ++ back ∧
    (∀ c ∈ front, isBlank c) ∧ ∀ c ∈ back, isBlank c
  /-- What is left does not begin with a blank. -/
  head : ∀ c ∈ inner.head?, ¬isBlank c
  /-- It does not end with one either. -/
  last : ∀ c ∈ inner.getLast?, ¬isBlank c

/-- Trimming gives what it should, a text with no blank at either end.  That
nothing else could be left is proved where names of registers are read. -/
theorem trimmed_trimChars (text : List Char) : Trimmed text (trimChars text) := by
  have htrim : trimChars text = (text.dropWhile isBlank).rdropWhile isBlank := rfl
  have hprefix := List.rdropWhile_prefix isBlank (text.dropWhile isBlank)
  constructor
  case blanks =>
    refine ⟨text.takeWhile isBlank,
      (text.dropWhile isBlank).rtakeWhile isBlank, ?_, ?_, ?_⟩
    · rw [htrim, List.append_assoc, List.rdropWhile_append_rtakeWhile,
        List.takeWhile_append_dropWhile]
    · exact fun c hc => List.mem_takeWhile_imp hc
    · exact fun c hc => List.mem_rtakeWhile_imp hc
  case head =>
    intro c hc
    rw [htrim] at hc
    have hhead : (text.dropWhile isBlank).head? = some c := by
      obtain ⟨rest, hrest⟩ := hprefix
      rw [← hrest, List.head?_append, hc, Option.some_or]
    have hnot := List.head?_dropWhile_not isBlank text
    rw [hhead] at hnot
    simp [hnot]
  case last =>
    intro c hc
    rw [htrim] at hc
    obtain ⟨hne, rfl⟩ := List.mem_getLast?_eq_getLast hc
    exact List.rdropWhile_last_not isBlank (text.dropWhile isBlank) hne

end Blank

namespace Numeral

variable {base largest n m d value : Nat} {c : Char}
  {digits done front rest text body : List Char}

/-! ### Digits and the number that they denote -/

/-- The digits in the order of what they count, with small letters from ten on. -/
def lowerDigits : List Char := "0123456789abcdef".toList

/-- The same with capital letters. -/
def upperDigits : List Char := "0123456789ABCDEF".toList

/-- A character is the digit of a base that counts `d`. -/
def IsDigit (base : Nat) (c : Char) (d : Nat) : Prop :=
  d < base ∧ (lowerDigits[d]? = some c ∨ upperDigits[d]? = some c)

/-- A run of digits denotes a number, its last digit being the least significant. -/
def Denotes (base : Nat) (digits : List Char) (n : Nat) : Prop :=
  ∃ values, List.Forall₂ (IsDigit base) digits.reverse values ∧
    Nat.ofDigits base values = n

/-- The value of a digit is what it counts.  In a base of at most sixteen there
are letters of either case among the digits. -/
theorem digitValue?_eq_some_iff (hbase : base ≤ 16) :
    digitValue? base c = some d ↔ IsDigit base c d := by
  constructor
  · have hdecimal : ∀ n < 0x3a, 0x30 ≤ n →
        lowerDigits[n - 0x30]? = some (Char.ofNat n) := by
      decide
    have hlower : ∀ n < 0x67, 0x61 ≤ n →
        lowerDigits[n - 0x61 + 10]? = some (Char.ofNat n) := by
      decide
    have hupper : ∀ n < 0x47, 0x41 ≤ n →
        upperDigits[n - 0x41 + 10]? = some (Char.ofNat n) := by
      decide
    intro h
    obtain ⟨hvalue, hbelow⟩ := Option.filter_eq_some_iff.1 h
    have hlt : d < base := of_decide_eq_true hbelow
    refine ⟨hlt, ?_⟩
    split at hvalue
    · next hc =>
      cases hvalue
      have hfound := hdecimal c.toNat (by omega) hc.1
      exact .inl (by rwa [Char.ofNat_toNat] at hfound)
    · split at hvalue
      · next hc =>
        cases hvalue
        have hfound := hlower c.toNat (by omega) hc.1
        exact .inl (by rwa [Char.ofNat_toNat] at hfound)
      · split at hvalue
        · next hc =>
          cases hvalue
          have hfound := hupper c.toNat (by omega) hc.1
          exact .inr (by rwa [Char.ofNat_toNat] at hfound)
        · cases hvalue
  · have hlower : ∀ d < 16, lowerDigits[d]?.map (digitValue? 16) =
        some (some d) := by decide
    have hupper : ∀ d < 16, upperDigits[d]?.map (digitValue? 16) =
        some (some d) := by decide
    have hnarrow : digitValue? base c = (digitValue? 16 c).filter (· < base) := by
      simp only [digitValue?, Option.filter_filter]
      congr 1
      funext n
      grind
    rintro ⟨hlt, hc⟩
    have hvalue : digitValue? 16 c = some d := by
      rcases hc with hc | hc
      · simpa [hc] using hlower d (by omega)
      · simpa [hc] using hupper d (by omega)
    simp [hnarrow, hvalue, hlt]

theorem IsDigit.eq (h : IsDigit base c d) {e : Nat} (he : IsDigit base c e)
    (hbase : base ≤ 16) :
    d = e :=
  Option.some.inj (((digitValue?_eq_some_iff hbase).2 h).symm.trans
    ((digitValue?_eq_some_iff hbase).2 he))

theorem denotes_nil : Denotes base [] 0 := ⟨[], .nil, rfl⟩

/-- A digit behind others makes room for itself in the number that they denote.
Reading goes through the digits from the front in the same way. -/
theorem denotes_concat :
    Denotes base (digits ++ [c]) n ↔
      ∃ m d, Denotes base digits m ∧ IsDigit base c d ∧ base * m + d = n := by
  unfold Denotes
  rw [List.reverse_append, List.reverse_singleton, List.singleton_append]
  constructor
  · rintro ⟨values, hvalues, rfl⟩
    obtain ⟨d, others, hd, hothers, rfl⟩ := List.forall₂_cons_left_iff.1 hvalues
    refine ⟨_, d, ⟨others, hothers, rfl⟩, hd, ?_⟩
    rw [Nat.ofDigits_cons, Nat.add_comm]
  · rintro ⟨m, d, ⟨values, hvalues, rfl⟩, hd, rfl⟩
    refine ⟨d :: values, .cons hd hvalues, ?_⟩
    rw [Nat.ofDigits_cons, Nat.add_comm]

namespace Denotes

/-- What denotes a number has nothing but digits in it. -/
theorem isDigit (h : Denotes base digits n) (hc : c ∈ digits) :
    ∃ d, IsDigit base c d := by
  induction digits using List.reverseRecOn generalizing n with
  | nil => cases hc
  | append_singleton digits last ih =>
    obtain ⟨m, d, hm, hd, -⟩ := denotes_concat.1 h
    rcases List.mem_append.1 hc with hc | hc
    · exact ih hm hc
    · rw [List.mem_singleton.1 hc]
      exact ⟨d, hd⟩

/-- A run of digits denotes one number. -/
theorem eq (h : Denotes base digits n) (hm : Denotes base digits m)
    (hbase : base ≤ 16) :
    n = m := by
  induction digits using List.reverseRecOn generalizing n m with
  | nil =>
    obtain ⟨-, ⟨⟩, rfl⟩ := h
    obtain ⟨-, ⟨⟩, rfl⟩ := hm
    rfl
  | append_singleton digits last ih =>
    obtain ⟨n₁, d, hn₁, hd, rfl⟩ := denotes_concat.1 h
    obtain ⟨m₁, e, hm₁, he, rfl⟩ := denotes_concat.1 hm
    rw [ih hn₁ hm₁, hd.eq he hbase]

/-- A longer run of digits denotes no smaller a number.  So it makes no
difference whether a bound is tested at every digit or at the end. -/
theorem le_of_append (h : Denotes base (front ++ rest) n)
    (hm : Denotes base front m) (hpos : 0 < base) (hbase : base ≤ 16) : m ≤ n := by
  induction rest using List.reverseRecOn generalizing n with
  | nil =>
    rw [List.append_nil] at h
    exact (hm.eq h hbase).le
  | append_singleton rest last ih =>
    rw [← List.append_assoc] at h
    obtain ⟨n₁, d, hn₁, -, rfl⟩ := denotes_concat.1 h
    calc m ≤ n₁ := ih hn₁
      _ ≤ base * n₁ := Nat.le_mul_of_pos_left n₁ hpos
      _ ≤ base * n₁ + d := Nat.le_add_right ..

end Denotes

/-! ### Runs of digits -/

/-- What comes of a run of characters that should be digits: the number
that they denote if it is not too large, and else what is wrong where it
first goes wrong. -/
def ComesTo (base largest : Nat) (digits : List Char) : Except Fault Nat → Prop
  | .ok n => Denotes base digits n ∧ n ≤ largest
  | .error .tooLarge =>
    ∃ front rest m, digits = front ++ rest ∧ Denotes base front m ∧ largest < m
  | .error .invalidDigit =>
    ∃ front c rest m, digits = front ++ c :: rest ∧
      Denotes base front m ∧ m ≤ largest ∧
      ∀ d, ¬IsDigit base c d
  | .error .empty => False

/-- Behind digits that denote a small enough number, the rest is read as
it comes.  The induction is on the rest, with the number so far as what
is carried along. -/
theorem comesTo_accumulate (hbase : base ≤ 16) (hdone : Denotes base done value)
    (hvalue : value ≤ largest) :
    ComesTo base largest (done ++ rest) (accumulate base largest value rest) := by
  induction rest generalizing done value with
  | nil =>
    rw [List.append_nil]
    exact ⟨hdone, hvalue⟩
  | cons c rest ih =>
    rw [accumulate]
    cases hc : digitValue? base c with
    | none =>
      refine ⟨done, c, rest, value, rfl, hdone, hvalue, ?_⟩
      intro d hd
      rw [(digitValue?_eq_some_iff hbase).2 hd] at hc
      cases hc
    | some d =>
      have hd : IsDigit base c d := (digitValue?_eq_some_iff hbase).1 hc
      have hnext : Denotes base (done ++ [c]) (base * value + d) :=
        denotes_concat.2 ⟨value, d, hdone, hd, rfl⟩
      have hsplit : done ++ c :: rest = done ++ [c] ++ rest := by simp
      rw [hsplit]
      dsimp only
      split
      · next hle => exact ih hnext hle
      · next hgt => exact ⟨done ++ [c], rest, _, rfl, hnext, Nat.not_le.1 hgt⟩

namespace ComesTo

section Exclusive

variable (hpos : 0 < base) (hbase : base ≤ 16)
include hpos hbase

/-- A run that comes to a number is at no place too large. -/
theorem not_tooLarge_of_ok (h : ComesTo base largest digits (.ok n)) :
    ¬ComesTo base largest digits (.error .tooLarge) := by
  obtain ⟨hn, hle⟩ := h
  rintro ⟨front, rest, m, rfl, hm, hlarge⟩
  exact absurd (hn.le_of_append hm hpos hbase) (by omega)

omit hpos hbase in
/-- Nor has it a place without a digit. -/
theorem not_invalidDigit_of_ok (h : ComesTo base largest digits (.ok n)) :
    ¬ComesTo base largest digits (.error .invalidDigit) := by
  rintro ⟨front, c, rest, m, rfl, -, -, hc⟩
  obtain ⟨d, hd⟩ := h.1.isDigit (c := c) (by simp)
  exact hc d hd

/-- Of the two faults, the one that comes first is reported, so they
exclude each other. -/
theorem not_tooLarge_of_invalidDigit
    (h : ComesTo base largest digits (.error .invalidDigit)) :
    ¬ComesTo base largest digits (.error .tooLarge) := by
  obtain ⟨front, c, rest, n, rfl, hn, hle, hc⟩ := h
  rintro ⟨longer, others, m, hsplit, hm, hlarge⟩
  -- A run that denotes too much either ends before the bad character or has it
  -- as a digit.
  rcases List.append_eq_append_iff.1 hsplit with ⟨more, rfl, hmore⟩ | ⟨more, rfl, -⟩
  · cases more with
    | nil =>
      rw [List.append_nil] at hm
      exact absurd (hm.eq hn hbase) (by omega)
    | cons first more =>
      obtain ⟨rfl, -⟩ := List.cons.inj hmore
      obtain ⟨d, hd⟩ := hm.isDigit (c := c) (by simp)
      exact hc d hd
  · exact absurd (hn.le_of_append hm hpos hbase) (by omega)

/-- A run of characters comes to one thing. -/
theorem eq {r s : Except Fault Nat} (hr : ComesTo base largest digits r)
    (hs : ComesTo base largest digits s) : r = s := by
  rcases r with (_ | _ | _) | n <;> rcases s with (_ | _ | _) | m
  case error.invalidDigit.error.invalidDigit | error.tooLarge.error.tooLarge => rfl
  case error.invalidDigit.error.tooLarge =>
    exact absurd hs (hr.not_tooLarge_of_invalidDigit hpos hbase)
  case error.tooLarge.error.invalidDigit =>
    exact absurd hr (hs.not_tooLarge_of_invalidDigit hpos hbase)
  case ok.error.tooLarge => exact absurd hs (hr.not_tooLarge_of_ok hpos hbase)
  case error.tooLarge.ok => exact absurd hr (hs.not_tooLarge_of_ok hpos hbase)
  case ok.error.invalidDigit => exact absurd hs hr.not_invalidDigit_of_ok
  case error.invalidDigit.ok => exact absurd hr hs.not_invalidDigit_of_ok
  case ok.ok => rw [hr.1.eq hs.1 hbase]
  all_goals first | exact hr.elim | exact hs.elim

end Exclusive

end ComesTo

/-! ### Numerals -/

/-- A run of digits, at least one, with at most one plus sign in front. -/
def IsNumeral (base : Nat) (body : List Char) (n : Nat) : Prop :=
  ∃ digits, digits ≠ [] ∧ (body = digits ∨ body = '+' :: digits) ∧
    Denotes base digits n

/-- A text without its plus sign, if anything stands behind the sign. -/
def unsigned : List Char → List Char
  | ['+'] => ['+']
  | '+' :: digits => digits
  | digits => digits

/-- What is wrong with a text that is no numeral, or one of too large a number. -/
def Fails (base largest : Nat) (body : List Char) : Fault → Prop
  | .empty => body = []
  | fault => body ≠ [] ∧ ComesTo base largest (unsigned body) (.error fault)

theorem read_eq_accumulate (h : body ≠ []) :
    read base largest body = accumulate base largest 0 (unsigned body) := by
  unfold read
  split
  · exact absurd rfl h
  · rfl
  · next digits hlone =>
    rw [unsigned]
    exact hlone
  · next digits hempty hlone hsign =>
    rw [unsigned]
    · exact hlone
    · exact hsign

/-- A plus sign is allowed in front of a numeral, once and with digits behind it. -/
theorem isNumeral_iff (hbase : base ≤ 16) :
    IsNumeral base body n ↔ body ≠ [] ∧ Denotes base (unsigned body) n := by
  have hplus : ∀ d, ¬IsDigit base '+' d := by
    intro d hd
    cases (digitValue?_eq_some_iff hbase).2 hd
  constructor
  · rintro ⟨digits, hne, rfl | rfl, hn⟩
    · refine ⟨hne, ?_⟩
      rw [unsigned]
      · exact hn
      · rintro rfl
        obtain ⟨d, hd⟩ := hn.isDigit List.mem_cons_self
        exact hplus d hd
      · rintro rest rfl
        obtain ⟨d, hd⟩ := hn.isDigit List.mem_cons_self
        exact hplus d hd
    · refine ⟨List.cons_ne_nil _ _, ?_⟩
      rw [unsigned]
      · exact hn
      · exact hne
  · rintro ⟨hne, hn⟩
    unfold unsigned at hn
    split at hn
    · obtain ⟨d, hd⟩ := hn.isDigit List.mem_cons_self
      exact absurd hd (hplus d)
    · next digits hlone => exact ⟨digits, hlone, .inr rfl, hn⟩
    · exact ⟨body, hne, .inl rfl, hn⟩

section Reading

variable (hpos : 0 < base) (hbase : base ≤ 16)
include hpos hbase

/-- What the characters come to is what is made of them. -/
theorem accumulate_eq_iff {r : Except Fault Nat} :
    accumulate base largest 0 digits = r ↔ ComesTo base largest digits r := by
  have h : ComesTo base largest ([] ++ digits) (accumulate base largest 0 digits) :=
    comesTo_accumulate hbase denotes_nil (Nat.zero_le largest)
  rw [List.nil_append] at h
  exact ⟨fun hr => hr ▸ h, fun hr => h.eq hpos hbase hr⟩

/-- A text is read in a base if it is a numeral of a small enough number. -/
theorem read_eq_ok_iff :
    read base largest body = .ok n ↔ IsNumeral base body n ∧ n ≤ largest := by
  rw [isNumeral_iff hbase]
  by_cases hne : body = []
  · subst hne
    exact iff_of_false (fun h => nomatch h) fun h => h.1.1 rfl
  · rw [read_eq_accumulate hne, accumulate_eq_iff hpos hbase]
    simp only [ComesTo, ne_eq, hne, not_false_eq_true, true_and]

/-- What is reported of any other text is what is wrong with it. -/
theorem read_eq_error_iff {fault : Fault} :
    read base largest body = .error fault ↔ Fails base largest body fault := by
  by_cases hne : body = []
  · subst hne
    cases fault with
    | empty => exact iff_of_true rfl rfl
    | invalidDigit | tooLarge =>
      exact iff_of_false (fun h => nomatch h) fun h => h.1 rfl
  · rw [read_eq_accumulate hne, accumulate_eq_iff hpos hbase]
    cases fault with
    | empty => exact iff_of_false id hne
    | invalidDigit | tooLarge => exact (and_iff_right hne).symm

end Reading

/-! ### Words -/

/-- A text is another one behind the mark of base sixteen. -/
def Marked (text body : List Char) : Prop :=
  text = '0' :: 'x' :: body ∨ text = '0' :: 'X' :: body

/-- A text is a numeral of base sixteen behind its mark, or a decimal one. -/
def IsWord (text : List Char) (n : Nat) : Prop :=
  (∃ body, Marked text body ∧ IsNumeral 16 body n) ∨ IsNumeral 10 text n

/-- What is wrong with a text that denotes no word: the numeral behind the mark,
if there is a mark, and the decimal one if there is none. -/
def IsNoWord (text : List Char) (fault : Fault) : Prop :=
  (∃ body, Marked text body ∧ Fails 16 0xffff body fault) ∨
    (∀ body, ¬Marked text body) ∧ Fails 10 0xffff text fault

/-- The number that a text without blanks around it denotes. -/
def readInner (text : List Char) : Except Fault Nat :=
  match text with
  | '0' :: 'x' :: digits => read 16 0xffff digits
  | '0' :: 'X' :: digits => read 16 0xffff digits
  | digits => read 10 0xffff digits

theorem readWord_eq (text : String) :
    readWord text =
      match readInner (Blank.trimChars text.toList) with
      | .ok n => .ok (UInt16.ofNat n)
      | .error fault =>
        .error ⟨String.ofList (Blank.trimChars text.toList), fault⟩ := rfl

/-- Behind the mark the base is sixteen. -/
theorem readInner_of_marked (h : Marked text body) :
    readInner text = read 16 0xffff body := by
  rcases h with rfl | rfl <;> rfl

/-- Without a mark it is ten. -/
theorem readInner_of_not_marked (h : ∀ body, ¬Marked text body) :
    readInner text = read 10 0xffff text := by
  unfold readInner
  split
  · exact absurd (.inl rfl) (h _)
  · exact absurd (.inr rfl) (h _)
  · rfl

/-- A text has one mark at most. -/
theorem Marked.eq (h : Marked text body) (hrest : Marked text rest) :
    body = rest := by
  rcases h with rfl | rfl <;> rcases hrest with hrest | hrest
    <;> cases hrest <;> rfl

/-- The letter of the mark is no decimal digit, so no text can be read in both
bases. -/
theorem Marked.not_isNumeral (h : Marked text body) : ¬IsNumeral 10 text n := by
  intro hn
  obtain ⟨-, hdigits⟩ := (isNumeral_iff (by decide)).1 hn
  rcases h with rfl | rfl <;>
  · obtain ⟨d, hd⟩ := hdigits.isDigit (List.mem_cons_of_mem _ List.mem_cons_self)
    cases (digitValue?_eq_some_iff (by decide)).2 hd

/-- A text without blanks around it is read as a number exactly if it is a
numeral of one that is small enough. -/
theorem readInner_eq_ok_iff :
    readInner text = .ok n ↔ IsWord text n ∧ n ≤ 0xffff := by
  by_cases hmark : ∃ body, Marked text body
  · obtain ⟨body, hmark⟩ := hmark
    rw [readInner_of_marked hmark, read_eq_ok_iff (by decide) (by decide)]
    refine and_congr_left' ?_
    constructor
    · exact fun hn => .inl ⟨body, hmark, hn⟩
    · rintro (⟨rest, hrest, hn⟩ | hn)
      · rwa [hmark.eq hrest]
      · exact absurd hn hmark.not_isNumeral
  · rw [not_exists] at hmark
    rw [readInner_of_not_marked hmark, read_eq_ok_iff (by decide) (by decide)]
    refine and_congr_left' ?_
    constructor
    · exact .inr
    · rintro (⟨body, hbody, -⟩ | hn)
      · exact absurd hbody (hmark body)
      · exact hn

/-- With any other text, what is wrong with it is reported. -/
theorem readInner_eq_error_iff {fault : Fault} :
    readInner text = .error fault ↔ IsNoWord text fault := by
  by_cases hmark : ∃ body, Marked text body
  · obtain ⟨body, hmark⟩ := hmark
    rw [readInner_of_marked hmark, read_eq_error_iff (by decide) (by decide)]
    constructor
    · exact fun hfails => .inl ⟨body, hmark, hfails⟩
    · rintro (⟨rest, hrest, hfails⟩ | ⟨hnone, -⟩)
      · rwa [hmark.eq hrest]
      · exact absurd hmark (hnone body)
  · rw [not_exists] at hmark
    rw [readInner_of_not_marked hmark, read_eq_error_iff (by decide) (by decide)]
    constructor
    · exact fun hfails => .inr ⟨hmark, hfails⟩
    · rintro (⟨body, hbody, -⟩ | ⟨-, hfails⟩)
      · exact absurd hbody (hmark body)
      · exact hfails

theorem readWord_eq_ok_iff {text : String} {word : UInt16} :
    readWord text = .ok word ↔
      readInner (Blank.trimChars text.toList) = .ok word.toNat := by
  rw [readWord_eq]
  cases hread : readInner (Blank.trimChars text.toList) with
  | error fault => exact iff_of_false (fun h => nomatch h) fun h => nomatch h
  | ok n =>
    have hsmall : n < 0x10000 := Nat.lt_succ_of_le (readInner_eq_ok_iff.1 hread).2
    have hback : (UInt16.ofNat n).toNat = n := UInt16.toNat_ofNat_of_lt' hsmall
    constructor
    · intro h
      cases h
      rw [hback]
    · intro h
      cases h
      exact congrArg Except.ok UInt16.ofNat_toNat

/-! ### Texts that are written for words -/

theorem isDigit_digitChar (hd : d < base) (hbase : base ≤ 16) :
    IsDigit base (Nat.digitChar d) d := by
  have htable : ∀ d < 16, lowerDigits[d]? = some (Nat.digitChar d) := by decide
  exact ⟨hd, .inl (htable d (by omega))⟩

/-- The digits that the library writes for a number denote it. -/
theorem denotes_toDigits (hone : 1 < base) (hbase : base ≤ 16) (n : Nat) :
    Denotes base (Nat.toDigits base n) n := by
  induction n using Nat.strongRecOn with
  | ind n ih =>
    rcases Nat.lt_or_ge n base with hlt | hge
    · rw [Nat.toDigits_of_lt_base hlt]
      have hdigit := isDigit_digitChar hlt hbase
      exact denotes_concat.2 ⟨0, n, denotes_nil,
        hdigit, by rw [Nat.mul_zero, Nat.zero_add]⟩
    · rw [Nat.toDigits_of_base_le hone hge]
      have hfront := ih (n / base) (Nat.div_lt_self (by omega) hone)
      have hlast := isDigit_digitChar (Nat.mod_lt n (by omega : 0 < base)) hbase
      exact denotes_concat.2 ⟨_, _, hfront, hlast, Nat.div_add_mod n base⟩

/-- So do the digits at a fixed width, if the number fits.  The zeros in
front do not count. -/
theorem denotes_fixed {width : Nat} (h : n < 16 ^ width) :
    Denotes 16 (Hex.fixed width n) n := by
  induction width generalizing n with
  | zero =>
    obtain rfl : n = 0 := by omega
    exact denotes_nil
  | succ width ih =>
    have hfront :=
      ih (n := n / 16) (Nat.div_lt_of_lt_mul (by rwa [← Nat.pow_succ']))
    have hlast : IsDigit 16 (Nat.digitChar (n % 16)) (n % 16) :=
      isDigit_digitChar (Nat.mod_lt n (by decide)) (by decide)
    exact denotes_concat.2 ⟨_, _, hfront, hlast, Nat.div_add_mod n 16⟩

theorem not_isBlank_of_isDigit (h : IsDigit base c d) :
    Blank.isBlank c = false := by
  have htable : (lowerDigits ++ upperDigits).all fun c =>
    !Blank.isBlank c := by decide
  have hmem : c ∈ lowerDigits ++ upperDigits := by
    rcases h.2 with hc | hc
    · exact List.mem_append_left _ (List.mem_of_getElem? hc)
    · exact List.mem_append_right _ (List.mem_of_getElem? hc)
  simpa using List.all_eq_true.1 htable c hmem

/-- A text without blanks that denotes a word is read as that word.  There
is nothing to trim. -/
theorem readWord_of_isWord {word : UInt16}
    (hblank : ∀ c ∈ text, Blank.isBlank c = false) (h : IsWord text word.toNat) :
    readWord (String.ofList text) = .ok word := by
  rw [readWord_eq_ok_iff, String.toList_ofList, Blank.trimChars_of_no_blank hblank]
  exact readInner_eq_ok_iff.2 ⟨h, Nat.le_of_lt_succ word.toNat_lt⟩

theorem readWord_decimal (word : UInt16) : readWord (toString word) = .ok word := by
  have hdigits := denotes_toDigits (by decide) (by decide : 10 ≤ 16) word.toNat
  refine readWord_of_isWord ?_ (.inr ⟨_, Nat.toDigits_ne_nil, .inl rfl, hdigits⟩)
  intro c hc
  obtain ⟨d, hd⟩ := hdigits.isDigit hc
  exact not_isBlank_of_isDigit hd

/-- Digits of base sixteen behind the mark are read as the word that they denote. -/
theorem readWord_marked {word : UInt16} (hne : digits ≠ [])
    (h : Denotes 16 digits word.toNat) :
    readWord ("0x" ++ String.ofList digits) = .ok word := by
  have htext :
      "0x" ++ String.ofList digits = String.ofList ('0' :: 'x' :: digits) := by
    rw [← String.toList_inj]
    simp
  rw [htext]
  refine readWord_of_isWord ?_ (.inl ⟨digits, .inl rfl, digits, hne, .inl rfl, h⟩)
  intro c hc
  rcases List.mem_cons.1 hc with rfl | hc
  · rfl
  rcases List.mem_cons.1 hc with rfl | hc
  · rfl
  obtain ⟨d, hd⟩ := h.isDigit hc
  exact not_isBlank_of_isDigit hd

/-- A text is read as a word exactly if, without the blanks around it, it is a
numeral that denotes the word: decimal digits, or hexadecimal ones behind their
mark, with at most one plus sign in front of them and any number of zeros.  With
every other text it is reported without its blanks, and with what is wrong with
it.  A word is read back from its decimal digits and, behind the mark, from its
hexadecimal ones, as few or as many of them as there are. -/
theorem words_read_exactly :
    (∀ text : String, ∃ inner, Blank.Trimmed text.toList inner ∧
      (∀ word, readWord text = .ok word ↔ IsWord inner word.toNat) ∧
      ∀ e, readWord text = .error e ↔ e.text = String.ofList inner ∧
        IsNoWord inner e.fault) ∧
    ∀ word : UInt16, readWord (toString word) = .ok word ∧
      readWord (Hex.word word) = .ok word ∧
      readWord ("0x" ++ String.ofList (Nat.toDigits 16 word.toNat)) = .ok word := by
  constructor
  · intro text
    refine ⟨Blank.trimChars text.toList, Blank.trimmed_trimChars _, ?_, ?_⟩
    · intro word
      have hsmall : word.toNat ≤ 0xffff := Nat.le_of_lt_succ word.toNat_lt
      rw [readWord_eq_ok_iff, readInner_eq_ok_iff]
      exact and_iff_left hsmall
    · rintro ⟨shown, fault⟩
      rw [← readInner_eq_error_iff, readWord_eq]
      cases hread : readInner (Blank.trimChars text.toList) with
      | error found => simp [eq_comm]
      | ok n => simp
  · intro word
    have hfixed : Denotes 16 (Hex.fixed 4 word.toNat) word.toNat :=
      denotes_fixed word.toNat_lt
    have hdigits := denotes_toDigits (by decide) (by decide : 16 ≤ 16) word.toNat
    exact ⟨readWord_decimal word, readWord_marked (List.cons_ne_nil _ _) hfixed,
      readWord_marked Nat.toDigits_ne_nil hdigits⟩

end Numeral

end StackMachine
