import StackMachine.Json.Record
import StackMachine.Proofs.DocumentText

/-!
# Numbers, names and records in documents

A number is written with its digits and a name as it is, so both are literals,
and what is read from them is the number and the name.  A record is an object
with a member for each field.

## Main definitions

* `Json.IsPlain` — characters of which none has to be escaped

## Main statements

* `Json.isNumber_toDigits`, `Json.isText_of_isPlain` — numbers and plain names
  are literals
* `Json.natural?_natural`, `Json.name?_name` — they denote what was written
* `Json.fields?_record` — the fields of a record are found again
-/

namespace StackMachine.Json

open Scanner (Reads reads_nil reads_of_step)

/-! ### Numbers -/

/-- A number begins with any digit other than zero. -/
theorem start_digitChar : ∀ n < 10, 0 < n →
    Scanner.start n.digitChar = some (.number .whole [n.digitChar], []) := by decide

/-- It goes on with any digit at all. -/
theorem next?_digitChar :
    ∀ n < 10, NumberPart.whole.next? n.digitChar = some .whole := by decide

/-- The digits of a number that is not zero are read as its whole part.  Zero is
a number of one digit and has a case of its own. -/
theorem reads_toDigits {n : Nat} (hpos : 0 < n) :
    Reads .between (Nat.toDigits 10 n)
      (.number .whole (Nat.toDigits 10 n).reverse) [] := by
  induction n using Nat.strongRecOn with
  | ind n ih =>
    rcases Nat.lt_or_ge n 10 with hlt | hge
    · rw [Nat.toDigits_of_lt_base hlt]
      exact reads_of_step (start_digitChar n hlt hpos)
    · -- The last digit goes on with the number that the others have started.
      rw [Nat.toDigits_of_base_le (by decide) hge, List.reverse_append]
      have hfront :=
        ih (n / 10) (Nat.div_lt_self hpos (by decide)) (Nat.div_pos hge (by decide))
      have hlast := next?_digitChar (n % 10) (Nat.mod_lt n (by decide))
      refine hfront.append (reads_of_step ?_)
      rw [Scanner.step, hlast]
      rfl

/-- The digits of a number are a number to a scanner. -/
theorem isNumber_toDigits (n : Nat) : IsNumber (Nat.toDigits 10 n) := by
  rcases Nat.eq_zero_or_pos n with rfl | hpos
  · exact ⟨.zero, rfl, reads_of_step rfl⟩
  · exact ⟨.whole, rfl, reads_toDigits hpos⟩

theorem legible_natural (n : Nat) : (natural n).Legible :=
  .number (isNumber_toDigits n)

theorem decimalValue_toDigits (n : Nat) : decimalValue (Nat.toDigits 10 n) = n :=
  Nat.ofDigitChars_toDigits (by decide) (by decide)

/-- A number is read back from its document if it is not too large for what is
read. -/
theorem natural?_natural {n largest : Nat} (h : n ≤ largest) :
    (natural n).natural? largest = some n := by
  have hdigits : (Nat.toDigits 10 n).all Char.isDigit :=
    List.all_eq_true.2 fun c hc =>
      Nat.isDigit_of_mem_toDigits (by decide) (by decide) hc
  rw [natural, natural?, decimalValue_toDigits, if_pos ⟨hdigits, h⟩]

/-- What is read is within the bound that it was read with. -/
theorem le_of_natural? {document : Json} {n largest : Nat}
    (h : document.natural? largest = some n) : n ≤ largest := by
  unfold natural? at h
  split at h
  · split at h
    · next hnatural =>
      cases h
      exact hnatural.2
    · cases h
  · cases h

/-! ### Names -/

/-- Whether a character stands for itself in a literal. -/
def isPlainChar (c : Char) : Bool := c ≠ '"' && c ≠ '\\' && 0x20 ≤ c.toNat

/-- Characters of which none has to be escaped. -/
def IsPlain (literal : List Char) : Prop := literal.all isPlainChar = true

instance (literal : List Char) : Decidable (IsPlain literal) :=
  inferInstanceAs (Decidable (_ = true))

variable {literal : List Char} {fields : List (String × Json)} {names : List String}

theorem isPlain_cons {c : Char} {rest : List Char} (h : IsPlain (c :: rest)) :
    c ≠ '"' ∧ c ≠ '\\' ∧ 0x20 ≤ c.toNat ∧ IsPlain rest := by
  simpa [IsPlain, isPlainChar, and_assoc] using h

/-- Plain characters are read as they stand. -/
theorem reads_of_isPlain (h : IsPlain literal) (read : List Char) :
    Reads (.text read) literal (.text (literal.reverse ++ read)) [] := by
  induction literal generalizing read with
  | nil => exact reads_nil _
  | cons c rest ih =>
    obtain ⟨hquote, hescape, hprintable, hrest⟩ := isPlain_cons h
    have hstep : (Scanner.text read).step c = some (.text (c :: read), []) := by
      rw [Scanner.step, if_neg hquote, if_neg hescape,
        if_neg (Nat.not_lt.2 hprintable)]
    rw [List.reverse_cons, List.append_assoc]
    exact (reads_of_step hstep).append (ih hrest (c :: read))

/-- So between quotes they are a text. -/
theorem isText_of_isPlain (h : IsPlain literal) : IsText literal := by
  have hreads := reads_of_isPlain h []
  rwa [List.append_nil] at hreads

theorem legible_name {plain : String} (h : IsPlain plain.toList) :
    (name plain).Legible :=
  .text (isText_of_isPlain h)

theorem pieces_cons {c : Char} (hescape : c ≠ '\\') (rest : List Char) :
    pieces (c :: rest) = .char c :: pieces rest := by
  rw [pieces]
  · exact fun _ _ _ _ _ hc _ => hescape hc
  · exact fun _ _ hc _ => hescape hc

/-- Plain characters have no escapes among them. -/
theorem pieces_of_isPlain (h : IsPlain literal) :
    pieces literal = literal.map .char := by
  induction literal with
  | nil => rfl
  | cons c rest ih =>
    obtain ⟨-, hescape, -, hrest⟩ := isPlain_cons h
    rw [pieces_cons hescape, ih hrest, List.map_cons]

theorem join_map_char (literal : List Char) :
    join (literal.map .char) = some literal := by
  induction literal with
  | nil => rfl
  | cons c rest ih => rw [List.map_cons, join, ih, Option.map_some]

theorem content?_of_isPlain {plain : String} (h : IsPlain plain.toList) :
    content? plain.toList = some plain := by
  rw [content?, pieces_of_isPlain h, join_map_char, Option.map_some,
    String.ofList_toList]

theorem name?_name {plain : String} (h : IsPlain plain.toList) :
    (name plain).name? = some plain :=
  content?_of_isPlain h

/-! ### Records -/

/-- The members of a record with distinct keys are found, the last one first.
What was found before is carried along for the induction. -/
theorem collect_record (unknown : Unknown)
    (hnames : ∀ field ∈ fields, field.1 ∈ names)
    (hplain : ∀ name ∈ names, IsPlain name.toList)
    (hdistinct : (fields.map (·.1)).Nodup) (found : List (String × Json))
    (hfound : ∀ field ∈ fields, found.lookup field.1 = none) :
    collect names unknown (fields.map fun (key, value) =>
      (key.toList, value)) found =
      some (fields.reverse ++ found) := by
  induction fields generalizing found with
  | nil => rfl
  | cons field rest ih =>
    obtain ⟨key, value⟩ := field
    obtain ⟨hname, hnames⟩ := List.forall_mem_cons.1 hnames
    obtain ⟨hfresh, hfound⟩ := List.forall_mem_cons.1 hfound
    obtain ⟨hnew, hdistinct⟩ := List.nodup_cons.1 hdistinct
    have hkey : content? key.toList = some key :=
      content?_of_isPlain (hplain key hname)
    show collect names unknown ((key.toList, value) :: rest.map _) found = _
    simp only [collect, hkey, hname, hfresh, if_true, Option.isSome_none,
      Bool.false_eq_true, if_false]
    refine (ih hnames hdistinct ((key, value) :: found) ?_).trans ?_
    · intro field hfield
      have hne : field.1 ≠ key :=
        fun he => hnew (List.mem_map.2 ⟨field, hfield, he⟩)
      rw [List.lookup_cons, beq_false_of_ne hne]
      exact hfound field hfield
    · rw [List.reverse_cons, List.append_assoc]
      rfl

/-- The fields of a record are found again, the last one first.  Where they are
looked up by name, the order makes no difference. -/
theorem fields?_record (fields : List (String × Json)) (names : List String)
    (hkeys : fields.map (·.1) = names)
    (hplain : ∀ name ∈ names, IsPlain name.toList) (hdistinct : names.Nodup)
    (unknown : Unknown) :
    (record fields).fields? names unknown = some fields.reverse := by
  have hnames : ∀ field ∈ fields, field.1 ∈ names :=
    fun field hfield => hkeys ▸ List.mem_map_of_mem hfield
  have hcollect :=
    collect_record unknown hnames hplain (hkeys ▸ hdistinct) [] fun _ _ => rfl
  rwa [List.append_nil] at hcollect

/-- A record can be read back if its values can, since its keys are plain. -/
theorem legible_record (names : List String) (hkeys : fields.map (·.1) = names)
    (hplain : ∀ name ∈ names, IsPlain name.toList)
    (hvalues : ∀ field ∈ fields, field.2.Legible) :
    (record fields).Legible := by
  refine .object ?_ ?_
  · intro member hmember
    obtain ⟨field, hfield, rfl⟩ := List.mem_map.1 hmember
    exact isText_of_isPlain (hplain field.1 (hkeys ▸ List.mem_map_of_mem hfield))
  · intro member hmember
    obtain ⟨field, hfield, rfl⟩ := List.mem_map.1 hmember
    exact hvalues field hfield

end StackMachine.Json
