import StackMachine.Json.Literal
import StackMachine.Proofs.DocumentText
import StackMachine.Proofs.WordText

/-!
# The forms of numbers

A number is a whole part, perhaps behind a minus sign, and perhaps with a
fraction and an exponent behind it.  That is what is read as a number, up to a
character that cannot go on with it.

## Main definitions

* `Json.NumberForm` — characters that are a number, by their parts
* `Json.NumberPart.Rest` — what is still to come of a number that has been read
  up to a part
* `Json.NumberPart.Advances` — characters that lead from one part to another

## Main statements

* `Json.NumberPart.rest_cons` — a character that belongs to a number is the
  first of its rest
* `Json.isNumber_of_numberForm` — what has the form of a number is read as one
* `Json.denotes_ten_iff`, `Json.denotes_sixteen_iff` — the digits in literals
  and what they denote

## Design notes

**One predicate for each part.**  While a number is read it is enough to know
which part is under way.  `Rest` says for each part what may still come, so
reading is seen to respect the form by one look at each kind of character.  In
the other direction the parts of a number are given, and are read one behind the
other.
-/

namespace StackMachine.Json

open Scanner (Reads reads_nil reads_of_step)

/-! ### Numbers -/

/-- Digits in base ten, if any. -/
def IsDigits (digits : List Char) : Prop := ∀ c ∈ digits, c.isDigit

/-- The whole part of a number: a zero, or digits of which the first is no zero. -/
inductive WholeForm : List Char → Prop where
  | zero : WholeForm ['0']
  | digits {c : Char} {rest : List Char} (hc : c.isDigit) (hzero : c ≠ '0')
    (hrest : IsDigits rest) : WholeForm (c :: rest)

/-- The fraction of a number, if it has one. -/
inductive FractionForm : List Char → Prop where
  | none : FractionForm []
  | digits {digits : List Char} (hne : digits ≠ []) (hdigits : IsDigits digits) :
    FractionForm ('.' :: digits)

/-- The exponent of a number, if it has one. -/
inductive ExponentForm : List Char → Prop where
  | none : ExponentForm []
  | digits {mark : Char} {sign digits : List Char} (hmark : mark = 'e' ∨ mark = 'E')
    (hsign : sign = [] ∨ sign = ['+'] ∨ sign = ['-']) (hne : digits ≠ [])
    (hdigits : IsDigits digits) : ExponentForm (mark :: (sign ++ digits))

/-- A number: a whole part, perhaps behind a minus sign, and perhaps with a
fraction and an exponent behind it. -/
inductive NumberForm : List Char → Prop where
  | mk {sign whole fraction exponent : List Char} (hsign : sign = [] ∨ sign = ['-'])
    (hwhole : WholeForm whole) (hfraction : FractionForm fraction)
    (hexponent : ExponentForm exponent) :
    NumberForm (sign ++ (whole ++ (fraction ++ exponent)))

variable {c : Char} {digits word rest literal : List Char}

/-- A digit by its number, so that arithmetic decides which characters are
digits. -/
theorem isDigit_iff (c : Char) : c.isDigit ↔ 0x30 ≤ c.toNat ∧ c.toNat ≤ 0x39 := by
  simp [Char.isDigit, UInt32.le_iff_toNat_le]

theorem isDigits_cons : IsDigits (c :: rest) ↔ c.isDigit ∧ IsDigits rest :=
  List.forall_mem_cons

namespace NumberPart

variable {part next last : NumberPart}

/-! #### What is still to come -/

/-- What may stand behind the digits of a whole part. -/
def Tail (rest : List Char) : Prop :=
  ∃ fraction exponent, rest = fraction ++ exponent ∧ FractionForm fraction ∧
    ExponentForm exponent

/-- The characters with which a number is completed that has been read up to a
part. -/
def Rest : NumberPart → List Char → Prop
  | sign, rest => ∃ whole tail, rest = whole ++ tail ∧ WholeForm whole ∧ Tail tail
  | zero, rest => Tail rest
  | whole, rest => ∃ digits tail, rest = digits ++ tail ∧
    IsDigits digits ∧ Tail tail
  | point, rest => ∃ digits exponent, rest = digits ++ exponent ∧
    digits ≠ [] ∧ IsDigits digits ∧ ExponentForm exponent
  | fraction, rest => ∃ digits exponent, rest = digits ++ exponent ∧
    IsDigits digits ∧ ExponentForm exponent
  | mark, rest => ∃ sign digits, rest = sign ++ digits ∧
    (sign = [] ∨ sign = ['+'] ∨ sign = ['-']) ∧ digits ≠ [] ∧ IsDigits digits
  | exponentSign, rest => rest ≠ [] ∧ IsDigits rest
  | exponent, rest => IsDigits rest

theorem tail_of_exponent (h : ExponentForm rest) : Tail rest :=
  ⟨[], rest, rfl, .none, h⟩

theorem rest_nil (h : part.isComplete) : part.Rest [] := by
  have hdigits : IsDigits [] := List.forall_mem_nil _
  have htail : Tail [] := tail_of_exponent .none
  cases part with
  | zero => exact htail
  | whole => exact ⟨[], [], rfl, hdigits, htail⟩
  | fraction => exact ⟨[], [], rfl, hdigits, .none⟩
  | exponent => exact hdigits
  | sign | point | mark | exponentSign => cases h

theorem rest_digit (hc : c.isDigit) (h : part.next? c = some next)
    (hrest : next.Rest rest) :
    part.Rest (c :: rest) := by
  have hcons {digits : List Char} (hdigits : IsDigits digits) :
      IsDigits (c :: digits) :=
    isDigits_cons.2 ⟨hc, hdigits⟩
  unfold next? at h
  rw [if_pos hc] at h
  cases part with
  | sign =>
    -- The first digit decides whether others may follow.
    replace h : (if c = '0' then some zero else some whole) = some next := h
    split at h
    · next hzero =>
      cases h
      subst hzero
      exact ⟨['0'], rest, rfl, .zero, hrest⟩
    · next hzero =>
      cases h
      obtain ⟨digits, tail, rfl, hdigits, htail⟩ := hrest
      exact ⟨c :: digits, tail, rfl, .digits hc hzero hdigits, htail⟩
  | zero => cases h
  | whole =>
    cases h
    obtain ⟨digits, tail, rfl, hdigits, htail⟩ := hrest
    exact ⟨c :: digits, tail, rfl, hcons hdigits, htail⟩
  | point =>
    cases h
    obtain ⟨digits, exponent, rfl, hdigits, hexponent⟩ := hrest
    exact ⟨c :: digits, exponent, rfl, List.cons_ne_nil _ _,
      hcons hdigits, hexponent⟩
  | fraction =>
    cases h
    obtain ⟨digits, exponent, rfl, hdigits, hexponent⟩ := hrest
    exact ⟨c :: digits, exponent, rfl, hcons hdigits, hexponent⟩
  | mark =>
    cases h
    exact ⟨[], c :: rest, rfl, .inl rfl, List.cons_ne_nil _ _, hcons hrest⟩
  | exponentSign =>
    cases h
    exact ⟨List.cons_ne_nil _ _, hcons hrest⟩
  | exponent =>
    cases h
    exact hcons hrest

theorem rest_point (h : part.next? '.' = some next) (hrest : next.Rest rest) :
    part.Rest ('.' :: rest) := by
  have htail (hnext : next = .point) : Tail ('.' :: rest) := by
    subst hnext
    obtain ⟨digits, exponent, rfl, hne, hdigits, hexponent⟩ := hrest
    exact ⟨'.' :: digits, exponent, rfl, .digits hne hdigits, hexponent⟩
  cases part with
  | zero =>
    cases h
    exact htail rfl
  | whole =>
    cases h
    exact ⟨[], '.' :: rest, rfl, List.forall_mem_nil _, htail rfl⟩
  | sign | point | fraction | mark | exponentSign | exponent => cases h

theorem rest_mark (hc : c = 'e' ∨ c = 'E') (h : part.next? c = some next)
    (hrest : next.Rest rest) : part.Rest (c :: rest) := by
  have hexponent (hnext : next = .mark) : ExponentForm (c :: rest) := by
    subst hnext
    obtain ⟨sign, digits, rfl, hsign, hne, hdigits⟩ := hrest
    exact .digits hc hsign hne hdigits
  have hnone : IsDigits [] := List.forall_mem_nil _
  rcases hc with rfl | rfl <;> cases part with
  | zero =>
    cases h
    exact tail_of_exponent (hexponent rfl)
  | whole =>
    cases h
    exact ⟨[], _, rfl, hnone, tail_of_exponent (hexponent rfl)⟩
  | fraction =>
    cases h
    exact ⟨[], _, rfl, hnone, hexponent rfl⟩
  | sign | point | mark | exponentSign | exponent => cases h

theorem rest_exponentSign (hc : c = '+' ∨ c = '-') (h : part.next? c = some next)
    (hrest : next.Rest rest) : part.Rest (c :: rest) := by
  have hsign : [c] = [] ∨ [c] = ['+'] ∨ [c] = ['-'] := by simpa using hc
  rcases hc with rfl | rfl <;> cases part with
  | mark =>
    cases h
    exact ⟨_, rest, rfl, hsign, hrest.1, hrest.2⟩
  | sign | zero | whole | point | fraction | exponentSign | exponent => cases h

/-- A character that belongs to the number is the first of those that complete
it.  Which kind of character it is decides what the number is at. -/
theorem rest_cons (h : part.next? c = some next) (hrest : next.Rest rest) :
    part.Rest (c :: rest) := by
  by_cases hdigit : c.isDigit
  · exact rest_digit hdigit h hrest
  by_cases hpoint : c = '.'
  · subst hpoint
    exact rest_point h hrest
  by_cases hmark : c = 'e' ∨ c = 'E'
  · exact rest_mark hmark h hrest
  by_cases hsign : c = '+' ∨ c = '-'
  · exact rest_exponentSign hsign h hrest
  unfold next? at h
  rw [if_neg hdigit, if_neg hpoint, if_neg hmark, if_neg hsign] at h
  cases h

/-! #### What is read -/

/-- Characters lead from one part of a number to another. -/
def Advances (part : NumberPart) (word : List Char) (last : NumberPart) : Prop :=
  ∀ read, Reads (.number part read) word (.number last (word.reverse ++ read)) []

theorem advances_nil (part : NumberPart) : Advances part [] part :=
  fun _ => reads_nil _

theorem advances_cons (h : part.next? c = some next)
    (hrest : Advances next rest last) :
    Advances part (c :: rest) last := by
  intro read
  have hstep :
      (Scanner.number part read).step c = some (.number next (c :: read), []) := by
    rw [Scanner.step, h]
  rw [List.reverse_cons, List.append_assoc]
  exact (reads_of_step hstep).append (hrest (c :: read))

theorem Advances.append (h : Advances part word next)
    (hrest : Advances next rest last) :
    Advances part (word ++ rest) last := by
  intro read
  rw [List.reverse_append, List.append_assoc]
  exact (h read).append (hrest (word.reverse ++ read))

/-- The digits of a part that has begun with one.  They stay in that part. -/
theorem advances_digits (hpart : part = whole ∨ part = fraction ∨ part = exponent)
    (h : IsDigits digits) : Advances part digits part := by
  induction digits with
  | nil => exact advances_nil part
  | cons c rest ih =>
    obtain ⟨hc, hrest⟩ := isDigits_cons.1 h
    refine advances_cons ?_ (ih hrest)
    rcases hpart with rfl | rfl | rfl <;> simp [next?, hc]

/-- The digits of a part that has not begun yet.  The first of them begins it,
so there has to be one. -/
theorem advances_first (hnext : ∀ c, c.isDigit → part.next? c = some next)
    (hloop : next = whole ∨ next = fraction ∨ next = exponent) (hne : digits ≠ [])
    (h : IsDigits digits) : Advances part digits next := by
  obtain ⟨c, rest, rfl⟩ := List.exists_cons_of_ne_nil hne
  obtain ⟨hc, hrest⟩ := isDigits_cons.1 h
  exact advances_cons (hnext c hc) (advances_digits hloop hrest)

/-- A fraction, or none, leaves the number where an exponent may follow. -/
theorem advances_fraction (hpart : part = zero ∨ part = whole)
    (h : FractionForm word) :
    ∃ last, (last = zero ∨ last = whole ∨ last = fraction) ∧
      Advances part word last := by
  cases h with
  | none => exact ⟨part, hpart.imp_right .inl, advances_nil part⟩
  | @digits digits hne hdigits =>
    have hpoint : part.next? '.' = some point := by
      rcases hpart with rfl | rfl <;> rfl
    have hfirst : Advances point digits fraction :=
      advances_first (fun c hc => by simp [next?, hc]) (.inr (.inl rfl)) hne hdigits
    exact ⟨fraction, .inr (.inr rfl), advances_cons hpoint hfirst⟩

/-- An exponent, or none, leaves the number where it may end. -/
theorem advances_exponent (hpart : part = zero ∨ part = whole ∨ part = fraction)
    (h : ExponentForm word) :
    ∃ last, last.isComplete ∧ Advances part word last := by
  cases h with
  | none =>
    refine ⟨part, ?_, advances_nil part⟩
    rcases hpart with rfl | rfl | rfl <;> rfl
  | @digits letter sign digits hmark hsign hne hdigits =>
    have hletter : part.next? letter = some mark := by
      rcases hpart with rfl | rfl | rfl <;> rcases hmark with rfl | rfl <;> rfl
    have hbare : Advances mark digits exponent :=
      advances_first (fun c hc => by simp [next?, hc]) (.inr (.inr rfl)) hne hdigits
    have hsigned : Advances exponentSign digits exponent :=
      advances_first (fun c hc => by simp [next?, hc]) (.inr (.inr rfl)) hne hdigits
    refine ⟨exponent, rfl, advances_cons hletter ?_⟩
    rcases hsign with rfl | rfl | rfl
    · exact hbare
    · exact advances_cons rfl hsigned
    · exact advances_cons rfl hsigned

/-- The first digit of a whole part decides how the others are read.  Behind a
zero there are none. -/
theorem advances_whole (h : WholeForm word) :
    ∃ c rest part, word = c :: rest ∧ sign.next? c = some part ∧
      (part = zero ∨ part = whole) ∧
      Advances part rest part := by
  cases h with
  | zero => exact ⟨'0', [], zero, rfl, rfl, .inl rfl, advances_nil zero⟩
  | @digits c rest hc hzero hrest =>
    have hfirst : sign.next? c = some whole := by simp [next?, hc, hzero]
    exact ⟨c, rest, whole, rfl, hfirst, .inr rfl, advances_digits (.inl rfl) hrest⟩

end NumberPart

/-- What completes a number behind its sign gives it the form of one, with
the sign or without. -/
theorem numberForm_of_rest (h : NumberPart.sign.Rest word) :
    NumberForm word ∧ NumberForm ('-' :: word) := by
  obtain ⟨whole, tail, rfl, hwhole, fraction, exponent, rfl, hfraction,
    hexponent⟩ := h
  exact ⟨.mk (.inl rfl) hwhole hfraction hexponent,
    .mk (.inr rfl) hwhole hfraction hexponent⟩

/-- The first digit of a number starts it between tokens. -/
theorem step_of_next? {part : NumberPart}
    (h : NumberPart.sign.next? c = some part) :
    Scanner.between.step c = some (.number part [c], []) := by
  have hdigits : ∀ n < 0x3a, 0x31 ≤ n →
      Scanner.start (Char.ofNat n) = some (.number .whole [Char.ofNat n], []) := by
    decide
  unfold NumberPart.next? at h
  split at h
  · next hc =>
    replace h : (if c = '0' then some NumberPart.zero
      else some .whole) = some part := h
    split at h
    · next hzero =>
      cases h
      subst hzero
      rfl
    · next hzero =>
      cases h
      obtain ⟨hlow, hhigh⟩ := (isDigit_iff c).1 hc
      have hne : c.toNat ≠ 0x30 := fun he => hzero (Char.toNat_inj.1 he)
      have hstart := hdigits c.toNat (by omega) (by omega)
      rwa [Char.ofNat_toNat] at hstart
  · split_ifs at h

/-- What has the form of a number is read as one.  With the converse the scanner
takes just what the grammar allows. -/
theorem isNumber_of_numberForm (h : NumberForm literal) : IsNumber literal := by
  cases h with
  | @mk sign whole fraction exponent hsign hwhole hfraction hexponent =>
    obtain ⟨c, rest, part, rfl, hfirst, hpart, hrest⟩ :=
      NumberPart.advances_whole hwhole
    obtain ⟨middle, hmiddle, hdecimals⟩ :=
      NumberPart.advances_fraction hpart hfraction
    obtain ⟨last, hlast, hpower⟩ := NumberPart.advances_exponent hmiddle hexponent
    have hall := hrest.append (hdecimals.append hpower)
    refine ⟨last, hlast, ?_⟩
    rcases hsign with rfl | rfl
    · have hreads := (reads_of_step (step_of_next? hfirst)).append (hall [c])
      simpa using hreads
    · have hminus : Reads .between ['-'] (.number .sign ['-']) [] :=
        reads_of_step rfl
      have hreads := hminus.append (NumberPart.advances_cons hfirst hall ['-'])
      simpa using hreads

/-! ### Digits -/

section Digits

variable {base n d : Nat} {isDigit : Char → Bool} {value : Char → Nat}

theorem isHexDigit_iff (c : Char) :
    isHexDigit c ↔ c.isDigit ∨ (0x61 ≤ c.toNat ∧ c.toNat ≤ 0x66) ∨
      0x41 ≤ c.toNat ∧ c.toNat ≤ 0x46 := by
  simp [isHexDigit, Char.le_def, UInt32.le_iff_toNat_le, or_assoc]

/-- In base ten the digits are those of a number. -/
theorem isDigit_ten_iff (c : Char) (d : Nat) :
    Numeral.IsDigit 10 c d ↔ c.isDigit ∧ c.toNat - 0x30 = d := by
  rw [← Numeral.digitValue?_eq_some_iff (by decide), isDigit_iff,
    Numeral.digitValue?]
  grind

/-- In base sixteen they are those of an escape. -/
theorem isDigit_sixteen_iff (c : Char) (d : Nat) :
    Numeral.IsDigit 16 c d ↔ isHexDigit c ∧ hexValue c = d := by
  rw [← Numeral.digitValue?_eq_some_iff (by decide), isHexDigit_iff,
    Numeral.digitValue?, hexValue]
  simp only [isDigit_iff]
  grind

/-- A run of digits denotes a number if its characters are digits and the number
is put together from what they count, from the front. -/
theorem denotes_iff_foldl
    (h : ∀ c d, Numeral.IsDigit base c d ↔ isDigit c ∧ value c = d) :
    Numeral.Denotes base digits n ↔
      (∀ c ∈ digits, isDigit c) ∧
        digits.foldl (fun n c => base * n + value c) 0 = n := by
  induction digits using List.reverseRecOn generalizing n with
  | nil => simp [Numeral.Denotes]
  | append_singleton digits last ih =>
    simp only [Numeral.denotes_concat, ih, h, List.foldl_append,
      List.foldl_cons, List.foldl_nil, List.forall_mem_append,
      List.forall_mem_singleton]
    grind

/-- A run of digits denotes a number below the power of the base that has its
length. -/
theorem lt_of_denotes (h : Numeral.Denotes base digits n) :
    n < base ^ digits.length := by
  induction digits using List.reverseRecOn generalizing n with
  | nil =>
    obtain ⟨-, ⟨⟩, rfl⟩ := h
    exact Nat.one_pos
  | append_singleton digits last ih =>
    obtain ⟨m, d, hm, ⟨hd, -⟩, rfl⟩ := Numeral.denotes_concat.1 h
    rw [List.length_append, List.length_singleton, Nat.pow_succ,
      Nat.mul_comm (base ^ _)]
    calc base * m + d < base * m + base := Nat.add_lt_add_left hd _
      _ = base * (m + 1) := (Nat.mul_succ base m).symm
      _ ≤ base * base ^ digits.length := Nat.mul_le_mul_left base (ih hm)

/-- What a numeral denotes, by the digits of a number. -/
theorem denotes_ten_iff :
    Numeral.Denotes 10 digits n ↔ IsDigits digits ∧ decimalValue digits = n :=
  denotes_iff_foldl isDigit_ten_iff

/-- What the four digits of an escape denote. -/
theorem denotes_sixteen_iff {a b c d : Char} :
    Numeral.Denotes 16 [a, b, c, d] n ↔ (∀ e ∈ [a, b, c, d], isHexDigit e) ∧
      hexValue a * 0x1000 + hexValue b * 0x100 + hexValue c * 0x10 +
        hexValue d = n := by
  rw [denotes_iff_foldl isDigit_sixteen_iff]
  refine and_congr_right fun _ => ?_
  simp only [List.foldl_cons, List.foldl_nil]
  omega

end Digits

end StackMachine.Json
