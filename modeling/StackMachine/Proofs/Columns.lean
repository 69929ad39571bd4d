import Mathlib.Data.List.DropRight
import StackMachine.Proofs.CodeListing
import StackMachine.Proofs.Sweep
import StackMachine.Text.Numeral

/-!
# Reading a listing back

Every row of a listing can be cut into its columns again, and the line that it
shows is read off them, whatever the bytes are.

## Main definitions

* `Hex.value` — the number that digits in base sixteen denote
* `EndsInGlyph` — a text that does not end in a blank
* `Listing.Line.ofRow?` — the line that a row shows

## Main statements

* `Listing.Item.length_text_le` — a text fits its column
* `Listing.Item.text_eq_db_iff` — data is told from instructions by its text
* `Listing.ofRow?_shown` — a row is read back as its line

## Design notes

**A row is cut at its semicolon.**  No text has one, and neither addresses nor
bytes are written with one.  In front of it the address has a fixed width, and
the blanks that fill up the text can be taken off as no text ends in a blank.
-/

namespace StackMachine

/-! ### Digits -/

namespace Hex

/-- The number that digits in base sixteen denote. -/
def value (digits : List Char) : Nat :=
  digits.foldl (fun n c => 16 * n + (Numeral.digitValue? 16 c).getD 0) 0

theorem value_concat (digits : List Char) (c : Char) :
    value (digits ++ [c]) = 16 * value digits + (Numeral.digitValue? 16 c).getD 0 :=
  List.foldl_append

/-- A number that fits the width is read off its digits.  The zeros in front
of it do no harm. -/
theorem value_fixed {width n : Nat} (h : n < Nat.pow 16 width) :
    value (fixed width n) = n := by
  have table : ∀ d : Fin 16,
      (Numeral.digitValue? 16 (Nat.digitChar d.val)).getD 0 = d.val := by
    decide
  induction width generalizing n with
  | zero => exact (Nat.lt_one_iff.1 h).symm
  | succ width ih =>
    have hpow : Nat.pow 16 (width + 1) = Nat.pow 16 width * 16 := rfl
    rw [hpow] at h
    rw [fixed, value_concat, ih (Nat.div_lt_of_lt_mul (by rwa [Nat.mul_comm])),
      table ⟨n % 16, Nat.mod_lt _ (by decide)⟩, Nat.div_add_mod]

end Hex

/-! ### The end of a text -/

/-- The last character is a glyph. -/
def EndsInGlyph (text : List Char) : Prop :=
  ∃ c, text.getLast? = some c ∧ isGlyph c = true

/-- Only what is last in a text says how it ends. -/
theorem EndsInGlyph.append {text : List Char} (h : EndsInGlyph text)
    (front : List Char) :
    EndsInGlyph (front ++ text) := by
  obtain ⟨c, hlast, hc⟩ := h
  exact ⟨c, by rw [List.getLast?_append, hlast, Option.some_or], hc⟩

/-- A text of glyphs ends in one, if there is any. -/
theorem endsInGlyph_of_glyphs {text : List Char} (hne : text ≠ [])
    (h : text.all isGlyph = true) :
    EndsInGlyph text :=
  ⟨text.getLast hne, List.getLast?_eq_some_getLast hne,
    List.all_eq_true.1 h _ (List.getLast_mem hne)⟩

/-- Texts that end in a glyph still do so with something between them. -/
theorem endsInGlyph_intercalate (between : List Char) {texts : List (List Char)}
    (hne : texts ≠ []) (h : ∀ text ∈ texts, EndsInGlyph text) :
    EndsInGlyph (between.intercalate texts) := by
  induction texts with
  | nil => exact absurd rfl hne
  | cons text others ih =>
    cases others with
    | nil =>
      rw [List.intercalate_singleton]
      exact h text List.mem_cons_self
    | cons other others =>
      rw [List.intercalate_cons_cons]
      exact (ih (List.cons_ne_nil _ _) fun t ht =>
        h t (List.mem_cons_of_mem _ ht)).append _

/-- Blanks behind a text that ends in a glyph can be taken off again.  This
undoes the padding of a column. -/
theorem EndsInGlyph.rdropWhile_blanks {text : List Char} (h : EndsInGlyph text)
    (count : Nat) :
    (text ++ List.replicate count ' ').rdropWhile (· == ' ') = text := by
  induction count with
  | zero =>
    obtain ⟨c, hlast, hc⟩ := h
    rw [List.replicate_zero, List.append_nil]
    refine List.rdropWhile_eq_self_iff.2 fun hne hblank => ?_
    rw [List.getLast?_eq_some_getLast hne, Option.some_inj] at hlast
    rw [hlast, beq_iff_eq] at hblank
    rw [hblank] at hc
    exact absurd hc (by decide)
  | succ count ih =>
    rw [List.replicate_succ', ← List.append_assoc,
      List.rdropWhile_concat_pos _ _ _ rfl, ih]

/-- The length of texts with something between them, from a bound on each.  It
is generous by what would stand behind the last. -/
theorem length_intercalate_le (between : List Char) {texts : List (List Char)}
    {bound : Nat} (h : ∀ text ∈ texts, text.length ≤ bound) :
    (between.intercalate texts).length ≤
      (bound + between.length) * texts.length := by
  induction texts with
  | nil => exact Nat.zero_le _
  | cons text others ih =>
    obtain ⟨hfirst, hothers⟩ := List.forall_mem_cons.1 h
    have hrest := ih hothers
    rw [List.length_cons, Nat.mul_succ]
    cases others with
    | nil =>
      rw [List.intercalate_singleton]
      omega
    | cons other others =>
      rw [List.intercalate_cons_cons, List.length_append, List.length_append]
      omega

/-! ### Instructions -/

namespace Operand

/-- An operand is written with at most six characters. -/
theorem length_text_le (operand : Operand) : operand.text.toList.length ≤ 6 := by
  have hname : ∀ r : Register, r.name.toList.length ≤ 6 := by
    intro r
    cases r <;> decide
  cases operand with
  | literal word =>
    rw [toList_text_literal, List.length_cons, List.length_cons, Hex.length_fixed]
  | address word =>
    rw [toList_text_address, List.length_cons, Hex.length_fixed]
    decide
  | register r => exact hname r
  | registerIndex i =>
    cases hi : Register.ofIndex? i.toNat with
    | some r =>
      rw [text_of_named hi]
      exact hname r
    | none =>
      have hdigits : (Nat.toDigits 10 i.toNat).length ≤ 3 :=
        (Nat.length_toDigits_le_iff (by decide) (by decide)).2
          (Nat.lt_trans i.toNat_lt (by decide))
      rw [toList_text_unnamed hi, List.length_cons]
      omega

end Operand

namespace Instruction

/-- The text of an instruction without operands is its mnemonic; otherwise the
operands follow, with a blank in front and commas between them. -/
theorem toList_text_cases (i : Instruction) :
    i.text.toList = i.opcode.mnemonic.toList ∨
      i.operands ≠ [] ∧ i.text.toList = i.opcode.mnemonic.toList ++
        ([' '] ++ [',', ' '].intercalate (i.operands.map (·.text.toList))) := by
  rw [text]
  cases i.operands with
  | nil => exact .inl rfl
  | cons operand operands =>
    refine .inr ⟨List.cons_ne_nil _ _, ?_⟩
    simp only [String.toList_append, String.toList_intercalate, List.map_map,
      List.append_assoc]
    rfl

theorem length_operands_le (i : Instruction) : i.operands.length ≤ 2 := by
  have hlayout : i.operands.length = i.opcode.layout.length := by
    rw [← i.map_kind_operands, List.length_map]
  rw [hlayout]
  cases i.opcode <;> decide

/-- An instruction fits its column, with two operands at most. -/
theorem length_text_le (i : Instruction) : i.text.toList.length ≤ 24 := by
  have hmnemonic := i.opcode.length_mnemonic
  rcases i.toList_text_cases with htext | ⟨-, htext⟩
  · rw [htext, hmnemonic]
    decide
  · have hcount := i.length_operands_le
    have hoperands : ∀ text ∈ i.operands.map (·.text.toList), text.length ≤ 6 := by
      intro text htext
      obtain ⟨operand, -, rfl⟩ := List.mem_map.1 htext
      exact operand.length_text_le
    have hlist := length_intercalate_le [',', ' '] hoperands
    rw [List.length_map] at hlist
    rw [htext, List.length_append, List.length_append, hmnemonic]
    simp only [List.length_cons, List.length_nil] at hlist ⊢
    omega

/-- An instruction is written with a glyph at its end, so it has no blanks that
could be taken for padding. -/
theorem endsInGlyph_text (i : Instruction) : EndsInGlyph i.text.toList := by
  rcases i.toList_text_cases with htext | ⟨hne, htext⟩
  · rw [htext]
    refine endsInGlyph_of_glyphs ?_ i.opcode.glyphs_mnemonic
    exact List.ne_nil_of_length_pos (by rw [i.opcode.length_mnemonic]; decide)
  · rw [htext]
    refine EndsInGlyph.append
      (EndsInGlyph.append (endsInGlyph_intercalate _ ?_ ?_) _) _
    · exact fun hnil => hne (List.map_eq_nil_iff.1 hnil)
    · intro text htext
      obtain ⟨operand, -, rfl⟩ := List.mem_map.1 htext
      exact endsInGlyph_of_glyphs operand.toList_text_ne_nil operand.glyphs_text

/-- The first three characters are the mnemonic.  A byte of data has a
blank among them. -/
theorem take_three_text (i : Instruction) :
    i.text.toList.take 3 = i.opcode.mnemonic.toList := by
  have hmnemonic := i.opcode.length_mnemonic
  rcases i.toList_text_cases with htext | ⟨-, htext⟩
  · rw [htext, List.take_of_length_le (Nat.le_of_eq hmnemonic)]
  · rw [htext, ← hmnemonic, List.take_left]

end Instruction

/-! ### Items -/

namespace Listing

namespace Item

/-- The text of an item fits its column. -/
theorem length_text_le (item : Item) : item.text.toList.length ≤ 24 := by
  cases item with
  | instruction i => exact i.length_text_le
  | data byte =>
    rw [toList_text_data, List.length_append, List.length_append, Hex.length_fixed]
    decide

/-- The text of an item ends in a glyph, be it an instruction or a byte of data.
So what is behind it in its column is padding, and can be told from it. -/
theorem endsInGlyph_text (item : Item) : EndsInGlyph item.text.toList := by
  cases item with
  | instruction i => exact i.endsInGlyph_text
  | data byte =>
    rw [toList_text_data]
    refine EndsInGlyph.append (EndsInGlyph.append ?_ _) _
    refine endsInGlyph_of_glyphs ?_ (Hex.glyphs_fixed 2 _)
    exact List.ne_nil_of_length_pos (by rw [Hex.length_fixed]; decide)

/-- No instruction is written as data is: no mnemonic has a blank. -/
theorem text_eq_db_iff (item : Item) :
    (∃ byte, item.text = "db " ++ Hex.byte byte) ↔ ∃ byte, item = .data byte := by
  constructor
  · rintro ⟨byte, htext⟩
    cases item with
    | instruction i =>
      have hmnemonic : i.opcode.mnemonic.toList = ['d', 'b', ' '] := by
        have hlist : i.text.toList = (data byte).text.toList :=
          congrArg String.toList htext
        rw [← i.take_three_text, hlist, toList_text_data]
        rfl
      have hblank : ' ' ∉ i.opcode.mnemonic.toList :=
        notMem_of_glyphs i.opcode.glyphs_mnemonic (by decide)
      rw [hmnemonic] at hblank
      exact absurd hblank (by decide)
    | data byte => exact ⟨byte, rfl⟩
  · rintro ⟨byte, rfl⟩
    exact ⟨byte, rfl⟩

end Item

/-! ### Rows -/

/-- The line that a row shows: in front of the semicolon the address and the
text, behind it the bytes. -/
def Line.ofRow? (row : String) : Option Line :=
  match row.toList.splitOn ';' with
  | [left, right] => some
    { address := UInt16.ofNat (Hex.value ((left.take 6).drop 2))
      text := String.ofList ((left.drop 8).rdropWhile (· == ' '))
      raw := ((right.drop 1).splitOn ' ').map fun digits =>
        UInt8.ofNat (Hex.value digits) }
  | _ => none

/-- What a row shows in front of its semicolon. -/
def Line.left (line : Line) : List Char :=
  (Hex.word line.address).toList ++
    ([':', ' '] ++
      (line.text.toList ++ List.replicate (24 - line.text.toList.length + 1) ' '))

/-- What a row shows behind its semicolon. -/
def Line.right (line : Line) : List Char :=
  ' ' :: [' '].intercalate (line.raw.map fun byte => Hex.fixed 2 byte.toNat)

variable {line : Line}

/-- A row is written with a semicolon between its two parts.  As neither has one
of its own, the row can be divided again. -/
theorem toList_shown (line : Line) :
    line.shown.toList = [';'].intercalate [line.left, line.right] := by
  have hraw : (" ".intercalate (line.raw.map Hex.pair)).toList =
      [' '].intercalate (line.raw.map fun byte => Hex.fixed 2 byte.toNat) := by
    rw [String.toList_intercalate, List.map_map]
    exact congrArg _ (List.map_congr_left fun byte _ => Hex.toList_pair byte)
  have hcolumn : (column line.text).toList =
      line.text.toList ++ List.replicate (24 - line.text.toList.length) ' ' :=
    String.toList_ofList
  have hcolon : ": ".toList = [':', ' '] := rfl
  have hsemicolon : " ; ".toList = [' ', ';', ' '] := rfl
  rw [Line.shown, List.intercalate_cons_cons, List.intercalate_singleton,
    Line.left, Line.right]
  simp only [String.toList_append, hraw, hcolumn, hcolon, hsemicolon,
    List.replicate_succ', List.append_assoc, List.cons_append, List.nil_append]

theorem semicolon_notMem_left (h : ';' ∉ line.text.toList) : ';' ∉ line.left := by
  simp only [Line.left, List.mem_append, not_or]
  refine ⟨Hex.notMem_word _ (by decide), by decide, h, fun hmem => ?_⟩
  exact absurd (List.eq_of_mem_replicate hmem) (by decide)

theorem semicolon_notMem_right (line : Line) : ';' ∉ line.right := by
  rw [Line.right, List.mem_cons, not_or]
  refine ⟨by decide, notMem_intercalate (by decide) fun digits hdigits => ?_⟩
  obtain ⟨byte, -, rfl⟩ := List.mem_map.1 hdigits
  exact notMem_of_glyphs (Hex.glyphs_fixed 2 _) (by decide)

/-- The address is read off its place in the left part. -/
theorem address_of_left (line : Line) :
    UInt16.ofNat (Hex.value ((line.left.take 6).drop 2)) = line.address := by
  have hwidth : (Hex.word line.address).toList.length = 6 := by
    rw [Hex.toList_word, List.length_cons, List.length_cons, Hex.length_fixed]
  rw [Line.left, ← hwidth, List.take_left, Hex.toList_word, List.drop_succ_cons,
    List.drop_succ_cons, List.drop_zero, Hex.value_fixed line.address.toNat_lt,
    UInt16.ofNat_toNat]

/-- The text is read off the left part, without the padding behind it. -/
theorem text_of_left (h : EndsInGlyph line.text.toList) :
    String.ofList ((line.left.drop 8).rdropWhile (· == ' ')) = line.text := by
  have hwidth : ((Hex.word line.address).toList ++ [':', ' ']).length = 8 := by
    rw [Hex.toList_word, List.length_append, List.length_cons, List.length_cons,
      Hex.length_fixed]
    rfl
  rw [Line.left, ← List.append_assoc, ← hwidth, List.drop_left, h.rdropWhile_blanks,
    String.ofList_toList]

/-- The bytes are read off the right part, between blanks. -/
theorem raw_of_right (h : line.raw ≠ []) :
    ((line.right.drop 1).splitOn ' ').map
      (fun digits => UInt8.ofNat (Hex.value digits)) =
      line.raw := by
  rw [Line.right, List.drop_succ_cons, List.drop_zero, List.splitOn_intercalate,
    List.map_map]
  · refine (List.map_congr_left fun byte _ => ?_).trans (List.map_id _)
    exact (congrArg UInt8.ofNat (Hex.value_fixed byte.toNat_lt)).trans
      UInt8.ofNat_toNat
  · intro digits hdigits
    obtain ⟨byte, -, rfl⟩ := List.mem_map.1 hdigits
    exact notMem_of_glyphs (Hex.glyphs_fixed 2 _) (by decide)
  · exact fun hnil => h (List.map_eq_nil_iff.1 hnil)

/-- A row is read back as its line.  The conditions on the text are those under
which the three parts can be told apart. -/
theorem ofRow?_shown (hsemicolon : ';' ∉ line.text.toList)
    (hend : EndsInGlyph line.text.toList) (hraw : line.raw ≠ []) :
    Line.ofRow? line.shown = some line := by
  have hcut : line.shown.toList.splitOn ';' = [line.left, line.right] := by
    rw [toList_shown, List.splitOn_intercalate]
    · intro part hpart
      rcases List.mem_pair.1 hpart with rfl | rfl
      · exact semicolon_notMem_left hsemicolon
      · exact semicolon_notMem_right line
    · exact List.cons_ne_nil _ _
  rw [Line.ofRow?, hcut]
  simp only
  rw [address_of_left, text_of_left hend, raw_of_right hraw]

end Listing

end StackMachine
