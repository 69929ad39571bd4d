import StackMachine.Instruction.Basic

/-!
# Reading an instruction off its text

Several opcodes share a mnemonic, and a register may stand for either of two
kinds of operand, yet no two instructions are written alike.

## Main definitions

* `isGlyph` — the characters of which mnemonics and operands are written
* `OperandKind.shown`, `OperandKind.seen?` — what a text shows of the kind of an
  operand
* `Instruction.condensed` — the text of an instruction without its blanks

## Main statements

* `Operand.seen?_text` — an operand shows its kind, up to the two kinds of
  registers
* `Operand.text_inj` — operands of one kind are told apart by their texts
* `Instruction.cut_texts` — the texts of the operands can be read off what is
  behind the mnemonic
* `Instruction.condensed_inj`, `Instruction.text_inj` — no two instructions are
  written alike

## Design notes

**Commas and blanks are no glyphs.**  So nothing is lost with the blanks, and
what is left behind the mnemonic can be cut at its commas.

**Kinds that look the same** are those of a register that is selected and of a
raw position that has a register.  Only the addition takes raw positions, and no
other opcode has its mnemonic, so the mnemonic tells which of them is meant.
-/

namespace StackMachine

/-- A character of which mnemonics and operands are written. -/
def isGlyph (c : Char) : Bool := c.isAlphanum || c == '&' || c == '#'

theorem notMem_of_glyphs {text : List Char} {c : Char} (h : text.all isGlyph = true)
    (hc : isGlyph c = false) : c ∉ text := by
  intro hmem
  rw [List.all_eq_true.1 h c hmem] at hc
  cases hc

/-- Nothing is lost with the blanks, as no glyph is one. -/
theorem filter_of_glyphs {text : List Char} (h : text.all isGlyph = true) :
    text.filter (· != ' ') = text := by
  refine List.filter_eq_self.2 fun c hc => ?_
  rw [bne_iff_ne]
  rintro rfl
  exact notMem_of_glyphs h (by decide) hc

/-- A character that is in none of some texts nor between them is not in the
whole. -/
theorem notMem_intercalate {between : List Char} {texts : List (List Char)}
    {c : Char} (hbetween : c ∉ between) (h : ∀ text ∈ texts, c ∉ text) :
    c ∉ between.intercalate texts := by
  induction texts with
  | nil => exact List.not_mem_nil
  | cons text others ih =>
    have hothers := ih fun other hother => h other (List.mem_cons_of_mem _ hother)
    have htext := h text List.mem_cons_self
    cases others with
    | nil =>
      rw [List.intercalate_singleton]
      exact htext
    | cons other others =>
      rw [List.intercalate_cons_cons, List.mem_append, List.mem_append]
      rintro ((hmem | hmem) | hmem)
      · exact htext hmem
      · exact hbetween hmem
      · exact hothers hmem

/-- Taking characters away from texts and from what stands between them is
taking them away from the whole. -/
theorem filter_intercalate (keep : Char → Bool) (between : List Char)
    (texts : List (List Char)) :
    (between.intercalate texts).filter keep =
      (between.filter keep).intercalate (texts.map (List.filter keep)) := by
  induction texts with
  | nil => rfl
  | cons text others ih =>
    cases others with
    | nil => simp only [List.map_cons, List.map_nil, List.intercalate_singleton]
    | cons other others =>
      simp only [List.map_cons, List.intercalate_cons_cons,
        List.filter_append] at ih ⊢
      rw [ih]

/-! ### Numerals and names -/

namespace Hex

theorem glyphs_fixed (width n : Nat) : (fixed width n).all isGlyph = true := by
  have table : ∀ d : Fin 16, isGlyph (Nat.digitChar d.val) = true := by decide
  induction width generalizing n with
  | zero => rfl
  | succ width ih =>
    rw [fixed, List.all_append, ih, List.all_cons,
      table ⟨n % 16, Nat.mod_lt _ (by decide)⟩]
    rfl

theorem toList_pair (byte : UInt8) : (pair byte).toList = fixed 2 byte.toNat :=
  String.toList_ofList

theorem toList_bareWord (w : UInt16) : (bareWord w).toList = fixed 4 w.toNat :=
  String.toList_ofList

theorem toList_word (w : UInt16) :
    (word w).toList = '0' :: 'x' :: fixed 4 w.toNat := by
  rw [word, String.toList_append, toList_bareWord]
  rfl

theorem notMem_word (w : UInt16) {c : Char} (hc : isGlyph c = false) :
    c ∉ (word w).toList := by
  refine notMem_of_glyphs ?_ hc
  rw [toList_word, List.all_cons, List.all_cons, glyphs_fixed]
  rfl

theorem fixed_four_inj {a b : UInt16} (h : fixed 4 a.toNat = fixed 4 b.toNat) :
    a = b := by
  have hbound : Nat.pow 16 4 = 2 ^ 16 := rfl
  refine UInt16.toNat_inj.1 (fixed_inj ?_ ?_ h) <;> rw [hbound]
    <;> exact UInt16.toNat_lt _

end Hex

namespace Register

theorem glyphs_name (r : Register) : r.name.toList.all isGlyph = true := by
  cases r <;> decide

theorem name_inj {r s : Register} (h : r.name = s.name) : r = s := by
  have hfound := congrArg named? h
  rw [named?_name, named?_name] at hfound
  exact Option.some.inj hfound

end Register

/-! ### Operands -/

/-- What a text shows of a kind: a selected register looks like a raw position. -/
def OperandKind.shown : OperandKind → OperandKind
  | literal => literal
  | address => address
  | register | registerIndex => register

/-- The kind that a text shows, if there is a text. -/
def OperandKind.seen? (text : List Char) : Option OperandKind :=
  match text with
  | [] => none
  | '0' :: _ => some literal
  | '&' :: _ => some address
  | _ => some register

namespace Operand

open OperandKind (shown seen?)

theorem toList_text_literal (word : UInt16) :
    (literal word).text.toList = '0' :: 'x' :: Hex.fixed 4 word.toNat :=
  Hex.toList_word word

theorem toList_text_address (word : UInt16) :
    (address word).text.toList = '&' :: Hex.fixed 4 word.toNat := by
  rw [text, String.toList_append, Hex.toList_bareWord]
  rfl

/-- A raw position without a register is written as a number behind a mark. -/
theorem toList_text_unnamed {i : UInt8} (h : Register.ofIndex? i.toNat = none) :
    (registerIndex i).text.toList = '#' :: Nat.toDigits 10 i.toNat := by
  rw [text, h]
  simp only [String.toList_append]
  exact congrArg ('#' :: ·) String.toList_ofList

/-- One with a register looks like that register. -/
theorem text_of_named {i : UInt8} {r : Register}
    (h : Register.ofIndex? i.toNat = some r) :
    (registerIndex i).text = r.name := by
  rw [text, h]

theorem glyphs_text (operand : Operand) :
    operand.text.toList.all isGlyph = true := by
  cases operand with
  | literal word =>
    rw [toList_text_literal, List.all_cons, List.all_cons, Hex.glyphs_fixed]
    rfl
  | address word =>
    rw [toList_text_address, List.all_cons, Hex.glyphs_fixed]
    rfl
  | register r => exact r.glyphs_name
  | registerIndex i =>
    cases hi : Register.ofIndex? i.toNat with
    | some r =>
      rw [text_of_named hi]
      exact r.glyphs_name
    | none =>
      rw [toList_text_unnamed hi, List.all_cons, List.all_eq_true.2]
      · rfl
      · intro c hc
        have hdigit := Nat.isDigit_of_mem_toDigits (by decide) (by decide) hc
        rw [isGlyph, Char.isAlphanum, hdigit, Bool.or_true, Bool.true_or,
          Bool.true_or]

theorem seen?_name (r : Register) : seen? r.name.toList = some .register := by
  cases r <;> rfl

/-- An operand shows its kind, up to the two kinds of registers.  The first
character is enough to see it. -/
theorem seen?_text (operand : Operand) :
    seen? operand.text.toList = some operand.kind.shown := by
  cases operand with
  | literal word => rw [toList_text_literal]; rfl
  | address word => rw [toList_text_address]; rfl
  | register r => exact seen?_name r
  | registerIndex i =>
    cases hi : Register.ofIndex? i.toNat with
    | some r =>
      rw [text_of_named hi]
      exact seen?_name r
    | none =>
      rw [toList_text_unnamed hi]
      rfl

theorem toList_text_ne_nil (operand : Operand) : operand.text.toList ≠ [] := by
  intro hempty
  have hseen := operand.seen?_text
  rw [hempty] at hseen
  cases hseen

/-- Raw positions are told apart by their texts.  One is either the name of a
register or a number behind its mark, and never both. -/
theorem registerIndex_text_inj {i j : UInt8}
    (h : (registerIndex i).text = (registerIndex j).text) : i = j := by
  -- No name of a register has the mark of a position without one.
  have hmark : ∀ {i j : UInt8} {r : Register}, Register.ofIndex? i.toNat = some r →
      Register.ofIndex? j.toNat = none →
        (registerIndex i).text ≠ (registerIndex j).text := by
    intro i j r hi hj h
    have hlist := congrArg String.toList h
    rw [text_of_named hi, toList_text_unnamed hj] at hlist
    cases r <;> cases List.head_eq_of_cons_eq hlist
  cases hi : Register.ofIndex? i.toNat with
  | some r =>
    cases hj : Register.ofIndex? j.toNat with
    | some s =>
      rw [text_of_named hi, text_of_named hj] at h
      cases Register.name_inj h
      rw [← UInt8.toNat_inj, ← Register.ofIndex?_eq_some_iff.1 hi,
        ← Register.ofIndex?_eq_some_iff.1 hj]
    | none => exact absurd h (hmark hi hj)
  | none =>
    cases hj : Register.ofIndex? j.toNat with
    | some s => exact absurd h.symm (hmark hj hi)
    | none =>
      have hlist := congrArg String.toList h
      rw [toList_text_unnamed hi, toList_text_unnamed hj] at hlist
      have hvalue :=
        congrArg (Nat.ofDigitChars 10 · 0) (List.tail_eq_of_cons_eq hlist)
      simp only [Nat.ofDigitChars_toDigits (by decide : 1 < 10)
        (Nat.le_refl 10)] at hvalue
      exact UInt8.toNat_inj.1 hvalue

/-- Operands of one kind are told apart by their texts.  Of two kinds they may
look alike, so the kinds have to be known from elsewhere. -/
theorem text_inj {a b : Operand} (hkind : a.kind = b.kind)
    (hlist : a.text.toList = b.text.toList) : a = b := by
  cases a with
  | literal word =>
    obtain ⟨other, rfl⟩ := kind_eq_literal.1 hkind.symm
    rw [toList_text_literal, toList_text_literal] at hlist
    rw [Hex.fixed_four_inj
      (List.tail_eq_of_cons_eq (List.tail_eq_of_cons_eq hlist))]
  | address word =>
    obtain ⟨other, rfl⟩ := kind_eq_address.1 hkind.symm
    rw [toList_text_address, toList_text_address] at hlist
    rw [Hex.fixed_four_inj (List.tail_eq_of_cons_eq hlist)]
  | register r =>
    obtain ⟨s, rfl⟩ := kind_eq_register.1 hkind.symm
    exact congrArg register (Register.name_inj (String.toList_inj.1 hlist))
  | registerIndex i =>
    obtain ⟨j, rfl⟩ := kind_eq_registerIndex.1 hkind.symm
    exact congrArg registerIndex
      (registerIndex_text_inj (String.toList_inj.1 hlist))

/-- Operands that follow one layout are told apart by their texts, one by one. -/
theorem texts_inj {operands others : List Operand}
    (hkinds : operands.map kind = others.map kind)
    (h : operands.map (·.text.toList) = others.map (·.text.toList)) :
    operands = others := by
  have hinj : ∀ a b : Operand, (a.kind, a.text.toList) =
      (b.kind, b.text.toList) → a = b := by
    intro a b hab
    exact text_inj (Prod.mk.inj hab).1 (Prod.mk.inj hab).2
  refine (List.map_inj_right hinj).1 ?_
  rw [← List.zip_map', ← List.zip_map', hkinds, h]

end Operand

/-! ### Instructions -/

namespace Opcode

theorem glyphs_mnemonic (op : Opcode) : op.mnemonic.toList.all isGlyph = true := by
  cases op <;> decide

theorem length_mnemonic (op : Opcode) : op.mnemonic.toList.length = 3 := by
  cases op <;> rfl

/-- Opcodes that share a mnemonic differ in what is shown of their operands.  It
is a matter of the table of opcodes and is settled by going through it. -/
theorem eq_of_mnemonic {op other : Opcode} (h : op.mnemonic = other.mnemonic)
    (hshown : op.layout.map (some ∘ OperandKind.shown) =
      other.layout.map (some ∘ OperandKind.shown)) : op = other := by
  cases op <;> cases other
    <;> first | rfl | exact absurd h (by decide) | cases hshown

end Opcode

namespace Instruction

/-- The text of an instruction without its blanks. -/
def condensed (i : Instruction) : List Char := i.text.toList.filter (· != ' ')

/-- Without its blanks, a text is the mnemonic and the operands with commas
between them.  The blanks are where a column may differ from the text. -/
theorem condensed_eq (i : Instruction) :
    i.condensed = i.opcode.mnemonic.toList ++ [','].intercalate
      (i.operands.map (·.text.toList)) := by
  have hmnemonic := filter_of_glyphs i.opcode.glyphs_mnemonic
  have htexts : ∀ operands : List Operand,
      (operands.map (·.text.toList)).map (List.filter (· != ' ')) =
        operands.map (·.text.toList) := by
    intro operands
    rw [List.map_map]
    exact List.map_congr_left fun operand _ => filter_of_glyphs operand.glyphs_text
  rw [condensed, text]
  cases i.operands with
  | nil => exact hmnemonic.trans (List.append_nil _).symm
  | cons operand operands =>
    have hblank : " ".toList.filter (· != ' ') = [] := rfl
    rw [String.toList_append, String.toList_append, String.toList_intercalate,
      List.map_map, List.filter_append, List.filter_append, hmnemonic, hblank,
      List.append_nil, filter_intercalate]
    exact congrArg (fun texts =>
      i.opcode.mnemonic.toList ++ [','].intercalate texts)
      (htexts (operand :: operands))

/-- Cut at the commas, what stands behind the mnemonic gives the texts of
the operands.  Without operands there is nothing to cut, and one empty
text to leave out. -/
theorem cut_texts (operands : List Operand) :
    (([','].intercalate (operands.map (·.text.toList))).splitOn ',').filter
      (· != []) =
      operands.map (·.text.toList) := by
  cases operands with
  | nil => rfl
  | cons operand others =>
    rw [List.splitOn_intercalate]
    · refine List.filter_eq_self.2 fun text htext => ?_
      obtain ⟨operand, -, rfl⟩ := List.mem_map.1 htext
      exact bne_iff_ne.2 operand.toList_text_ne_nil
    · intro text htext
      obtain ⟨operand, -, rfl⟩ := List.mem_map.1 htext
      exact notMem_of_glyphs operand.glyphs_text (by decide)
    · exact List.cons_ne_nil _ _

/-- No two instructions are written with the same characters other than blanks.
The mnemonic has three characters, the cuts give the texts, these show the
kinds, and the kinds tell the opcode. -/
theorem condensed_inj {i j : Instruction} (h : i.condensed = j.condensed) :
    i = j := by
  rw [condensed_eq, condensed_eq] at h
  obtain ⟨hmnemonic, hbehind⟩ := List.append_inj h
    (by rw [Opcode.length_mnemonic, Opcode.length_mnemonic])
  have htexts :
      i.operands.map (·.text.toList) = j.operands.map (·.text.toList) := by
    rw [← cut_texts, hbehind, cut_texts]
  have hseen : ∀ i : Instruction, i.opcode.layout.map (some ∘ OperandKind.shown) =
      (i.operands.map (·.text.toList)).map OperandKind.seen? := by
    intro i
    rw [← map_kind_operands, List.map_map, List.map_map]
    exact List.map_congr_left fun operand _ => operand.seen?_text.symm
  have hopcode : i.opcode = j.opcode :=
    Opcode.eq_of_mnemonic (String.toList_inj.1 hmnemonic)
      (by rw [hseen, hseen, htexts])
  have hoperands : i.operands = j.operands :=
    Operand.texts_inj (by rw [map_kind_operands, map_kind_operands, hopcode]) htexts
  have hi := ofOperands?_operands i
  rw [hopcode, hoperands, ofOperands?_operands] at hi
  exact (Option.some.inj hi).symm

/-- No two instructions are written alike. -/
theorem text_inj {i j : Instruction} (h : i.text = j.text) : i = j :=
  condensed_inj (congrArg (fun text => text.toList.filter (· != ' ')) h)

/-- Glyphs, commas and blanks are all that an instruction is written with, so it
can stand in a row with other things. -/
theorem notMem_text (i : Instruction) {c : Char} (hglyph : isGlyph c = false)
    (hcomma : c ≠ ',') (hblank : c ≠ ' ') : c ∉ i.text.toList := by
  intro hmem
  have hkept : c ∈ i.condensed := List.mem_filter.2 ⟨hmem, bne_iff_ne.2 hblank⟩
  rw [condensed_eq, List.mem_append] at hkept
  rcases hkept with hkept | hkept
  · exact notMem_of_glyphs i.opcode.glyphs_mnemonic hglyph hkept
  · refine notMem_intercalate (by simpa using hcomma) (fun text htext => ?_) hkept
    obtain ⟨operand, -, rfl⟩ := List.mem_map.1 htext
    exact notMem_of_glyphs operand.glyphs_text hglyph

/-- An instruction is written on one line. -/
theorem newline_notMem_text (i : Instruction) : '\n' ∉ i.text.toList :=
  i.notMem_text (by decide) (by decide) (by decide)

end Instruction

end StackMachine
