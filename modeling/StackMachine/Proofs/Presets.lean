import StackMachine.CommandLine.Preset
import StackMachine.Proofs.Action
import StackMachine.Proofs.RegisterNames

/-!
# Presets in a row

Presets are assignments, carried out from the left.  If all of them are good,
each register has the word that was assigned to it last.  If one is bad, the
first bad one is reported, and those before it have been carried out.

## Main definitions

* `CommandLine.Divided` — the two sides of the first equals sign of a text
* `CommandLine.Assigns` — a text is a preset for a register
* `CommandLine.IsBad` — what is wrong with a text that is no preset
* `CommandLine.HoldsLast` — the word that a row of presets leaves in a register
* `CommandLine.Applied` — a machine to which presets have been applied

## Main statements

* `CommandLine.readPreset_eq_ok_iff`, `CommandLine.readPreset_eq_error_iff` —
  one text
* `CommandLine.applyPresets_eq_ok_iff`, `CommandLine.applyPresets_eq_error_iff`
  — a row of texts
* `CommandLine.presets_applied_in_order` — both, with the names of the registers

## Design notes

**The last assignment is told by what follows it:** no text behind it is for the
same register.  So neither the order in which words are put into registers nor
the registers themselves are in the statement of what a row of presets does.
-/

namespace StackMachine.CommandLine

open Register (Spelled)

variable {text left right : String} {presets before : List String} {r s : Register}
  {old word v : UInt16} {m m' : Machine} {e : PresetError}

/-! ### One preset -/

/-- A text has two sides at its first equals sign. -/
def Divided (text left right : String) : Prop :=
  text = left ++ "=" ++ right ∧ '=' ∉ left.toList

/-- The two sides of a text, character by character. -/
theorem divided_iff :
    Divided text left right ↔
      text.toList = left.toList ++ '=' :: right.toList ∧ '=' ∉ left.toList := by
  rw [Divided, ← String.toList_inj]
  simp only [String.toList_append, List.append_assoc]
  rfl

theorem forall_ne_iff {chars : List Char} :
    (∀ c ∈ chars, decide (c ≠ '=') = true) ↔ '=' ∉ chars := by
  constructor
  · intro hall hmem
    simpa using hall _ hmem
  · intro hnot c hc
    refine decide_eq_true ?_
    rintro rfl
    exact hnot hc

/-- A text is split at its first equals sign.  The right side may have others,
the left side has none. -/
theorem splitAssignment_eq_some_iff :
    splitAssignment text = some (left, right) ↔ Divided text left right := by
  rw [divided_iff]
  constructor
  · intro h
    unfold splitAssignment at h
    split at h
    · cases h
    · next c value hrest =>
      cases h
      have hsplit :
          text.toList.takeWhile (· ≠ '=') ++ text.toList.dropWhile (· ≠ '=') =
          text.toList := List.takeWhile_append_dropWhile
      have hhead := List.head?_dropWhile_not (· ≠ '=') text.toList
      rw [hrest] at hsplit hhead
      obtain rfl : c = '=' := by simpa using hhead
      rw [String.toList_ofList, String.toList_ofList]
      refine ⟨hsplit.symm, fun hmem => ?_⟩
      simpa using List.mem_takeWhile_imp hmem
  · rintro ⟨htext, hleft⟩
    have hbefore := forall_ne_iff.2 hleft
    unfold splitAssignment
    rw [htext, List.dropWhile_append_of_pos hbefore,
      List.takeWhile_append_of_pos hbefore]
    simp

/-- Only a text without an equals sign is not split. -/
theorem splitAssignment_eq_none_iff :
    splitAssignment text = none ↔ '=' ∉ text.toList := by
  rw [← forall_ne_iff, ← List.dropWhile_eq_nil_iff]
  unfold splitAssignment
  split
  · next hrest => exact iff_of_true rfl hrest
  · next hrest =>
    refine iff_of_false (fun h => nomatch h) ?_
    rw [hrest]
    exact List.cons_ne_nil _ _

/-- A text is an assignment of a word to a register. -/
def Assigns (text : String) (r : Register) (word : UInt16) : Prop :=
  ∃ left right, Divided text left right ∧ Spelled left r ∧
    Numeral.readWord right = .ok word

/-- What is wrong with a text that is no assignment. -/
inductive IsBad (text : String) : PresetError → Prop
  /-- There is no equals sign. -/
  | notAssignment (h : '=' ∉ text.toList) : IsBad text (.notAssignment text)
  /-- What stands behind the first one is no word. -/
  | value {left right : String} {fault : Numeral.WordFault}
      (h : Divided text left right)
      (hright : Numeral.readWord right = .error fault) : IsBad text (.value fault)
  /-- It is a word, but what stands in front names no register. -/
  | register {left right : String} {word : UInt16} (h : Divided text left right)
      (hright : Numeral.readWord right = .ok word) (hleft : ∀ r, ¬Spelled left r) :
      IsBad text (.register ⟨left⟩)

/-- An assignment is read as what it assigns. -/
theorem readPreset_of_assigns (h : Assigns text r word) :
    readPreset text = .ok (r, word) := by
  obtain ⟨left, right, hdivided, hleft, hright⟩ := h
  simp only [readPreset, splitAssignment_eq_some_iff.2 hdivided, hright,
    Register.parse_eq_ok_iff.2 hleft]

/-- What is wrong with a text is reported.  The word is looked at before the
name, as the cases of a bad text say. -/
theorem readPreset_of_isBad (h : IsBad text e) : readPreset text = .error e := by
  cases h with
  | notAssignment h => simp only [readPreset, splitAssignment_eq_none_iff.2 h]
  | value h hright =>
    simp only [readPreset, splitAssignment_eq_some_iff.2 h, hright]
  | register h hright hleft =>
    simp only [readPreset, splitAssignment_eq_some_iff.2 h, hright,
      Register.parse_eq_error_iff.2 ⟨hleft, rfl⟩]

/-- A text is an assignment, or something is wrong with it.  As reading follows
both, it is known for every text. -/
theorem assigns_or_isBad (text : String) :
    (∃ r word, Assigns text r word) ∨ ∃ e, IsBad text e := by
  cases hsplit : splitAssignment text with
  | none => exact .inr ⟨_, .notAssignment (splitAssignment_eq_none_iff.1 hsplit)⟩
  | some sides =>
    obtain ⟨left, right⟩ := sides
    have hdivided := splitAssignment_eq_some_iff.1 hsplit
    cases hright : Numeral.readWord right with
    | error fault => exact .inr ⟨_, .value hdivided hright⟩
    | ok word =>
      cases hleft : Register.parse left with
      | ok r =>
        exact .inl ⟨r, word, left, right, hdivided,
          Register.parse_eq_ok_iff.1 hleft, hright⟩
      | error cause =>
        exact .inr ⟨_, .register hdivided hright
          (Register.parse_eq_error_iff.1 hleft).1⟩

/-- Nothing but an assignment is read as one. -/
theorem readPreset_eq_ok_iff :
    readPreset text = .ok (r, word) ↔ Assigns text r word := by
  refine ⟨fun h => ?_, readPreset_of_assigns⟩
  rcases assigns_or_isBad text with ⟨s, v, hassigns⟩ | ⟨e, hbad⟩
  · rw [readPreset_of_assigns hassigns] at h
    cases h
    exact hassigns
  · rw [readPreset_of_isBad hbad] at h
    cases h

/-- Nothing is reported that is not wrong with the text. -/
theorem readPreset_eq_error_iff : readPreset text = .error e ↔ IsBad text e := by
  refine ⟨fun h => ?_, readPreset_of_isBad⟩
  rcases assigns_or_isBad text with ⟨s, v, hassigns⟩ | ⟨e', hbad⟩
  · rw [readPreset_of_assigns hassigns] at h
    cases h
  · rw [readPreset_of_isBad hbad] at h
    cases h
    exact hbad

/-- Blanks around the name and around the word do not count, nor does
the case of letters. -/
example : readPreset " R1\t= 0x10 " = .ok (.r1, 16) := by decide

/-- A text is one assignment only. -/
theorem Assigns.eq (h : Assigns text r word) (h' : Assigns text s v) :
    s = r ∧ v = word := by
  have hboth := (readPreset_of_assigns h').symm.trans (readPreset_of_assigns h)
  exact Prod.mk.inj (Except.ok.inj hboth)

/-! ### A row of presets -/

/-- What one preset does: it sets its register before the next one is
read, or ends the row. -/
theorem applyPresets_cons (text : String) (presets : List String) (m : Machine) :
    applyPresets (text :: presets) m =
      match readPreset text with
      | .ok assignment =>
        applyPresets presets (m.setRegister assignment.1 assignment.2)
      | .error cause => .error cause m := by
  unfold applyPresets
  rw [List.forM_eq_forM, List.forM_cons, Action.bind_apply]
  cases readPreset text <;> rfl

/-- A register that held an old word holds another one behind a row of
presets: the word of the last preset that is for the register, or the
old one if none is. -/
def HoldsLast (presets : List String) (r : Register) (old word : UInt16) : Prop :=
  (∃ before text after, presets = before ++ text :: after ∧ Assigns text r word ∧
      ∀ later ∈ after, ∀ v, ¬Assigns later r v) ∨
    (∀ text ∈ presets, ∀ v, ¬Assigns text r v) ∧ word = old

/-- A machine is another one with presets applied to it. -/
structure Applied (presets : List String) (m m' : Machine) : Prop where
  /-- Each text is an assignment. -/
  assigns : ∀ text ∈ presets, ∃ r word, Assigns text r word
  /-- A register holds the word that is assigned to it last. -/
  register : ∀ r, HoldsLast presets r (m.register r) (m'.register r)
  /-- Nothing else is changed. -/
  others : m' = { m with bank := m'.bank }

namespace HoldsLast

/-- Of two presets for a register, with none for it behind either, neither
stands behind the other.  So it makes sense to speak of the last. -/
theorem last_unique {before₁ before₂ after₁ after₂ : List String}
    {text₁ text₂ : String}
    (hsplit : before₁ ++ text₁ :: after₁ = before₂ ++ text₂ :: after₂)
    (h₁ : Assigns text₁ r word) (h₂ : Assigns text₂ r v)
    (hlast₁ : ∀ later ∈ after₁, ∀ v, ¬Assigns later r v)
    (hlast₂ : ∀ later ∈ after₂, ∀ v, ¬Assigns later r v) : word = v := by
  rcases List.append_eq_append_iff.1 hsplit with
    ⟨between, -, hrest⟩ | ⟨between, -, hrest⟩
  · cases between with
    | nil =>
      obtain ⟨rfl, -⟩ := List.cons.inj hrest
      exact (h₂.eq h₁).2
    | cons first between =>
      obtain ⟨-, rfl⟩ := List.cons.inj hrest
      exact absurd h₂ (hlast₁ text₂ (by simp) v)
  · cases between with
    | nil =>
      obtain ⟨rfl, -⟩ := List.cons.inj hrest
      exact (h₂.eq h₁).2
    | cons first between =>
      obtain ⟨-, rfl⟩ := List.cons.inj hrest
      exact absurd h₁ (hlast₂ text₁ (by simp) word)

/-- A register holds one word. -/
theorem eq (h : HoldsLast presets r old word) (h' : HoldsLast presets r old v) :
    word = v := by
  rcases h with ⟨before, text, after, rfl, hword, hlast⟩ | ⟨hnone, rfl⟩
  · rcases h' with ⟨before', text', after', hsplit, hv, hlast'⟩ | ⟨hnone, -⟩
    · exact last_unique hsplit hword hv hlast hlast'
    · exact absurd hword (hnone text (by simp) word)
  · rcases h' with ⟨before', text', after', rfl, hv, -⟩ | ⟨-, rfl⟩
    · exact absurd hv (hnone text' (by simp) v)
    · rfl

/-- What a register holds behind the rest of a row, it holds behind the whole
row.  The first preset counts only if no other is for its register. -/
theorem cons (h : HoldsLast presets r (if s = r then v else old) word)
    (hfirst : Assigns text s v) :
    HoldsLast (text :: presets) r old word := by
  rcases h with ⟨before, last, after, rfl, hword, hlast⟩ | ⟨hnone, hword⟩
  · exact .inl ⟨text :: before, last, after, rfl, hword, hlast⟩
  · split at hword
    · next hsame =>
      subst hsame hword
      exact .inl ⟨[], text, presets, rfl, hfirst, hnone⟩
    · next hother =>
      refine .inr ⟨List.forall_mem_cons.2 ⟨fun w hw => ?_, hnone⟩, hword⟩
      exact hother (hw.eq hfirst).1

end HoldsLast

namespace Applied

/-- Presets that are carried out have been applied.  The induction goes
along the row, with the machine behind the first preset as the one that the
others begin with. -/
theorem of_ok (h : applyPresets presets m = .ok () m') : Applied presets m m' := by
  induction presets generalizing m with
  | nil =>
    cases h
    exact ⟨List.forall_mem_nil _, fun r => .inr ⟨List.forall_mem_nil _, rfl⟩, rfl⟩
  | cons text presets ih =>
    rw [applyPresets_cons] at h
    split at h
    · next assignment hread =>
      obtain ⟨s, v⟩ := assignment
      have hfirst : Assigns text s v := readPreset_eq_ok_iff.1 hread
      have hrest := ih h
      refine ⟨List.forall_mem_cons.2 ⟨⟨s, v, hfirst⟩, hrest.assigns⟩,
        fun r => ?_, hrest.others⟩
      have hregister : (m.setRegister s v).register r = if s = r then v
          else m.register r :=
        Bank.get_set ..
      refine HoldsLast.cons ?_ hfirst
      rw [← hregister]
      exact hrest.register r
    · cases h

/-- Presets without a bad one among them are carried out.  Setting a
register cannot fail. -/
theorem exists_ok (h : ∀ text ∈ presets, ∃ r word, Assigns text r word) :
    ∃ m', applyPresets presets m = .ok () m' := by
  induction presets generalizing m with
  | nil => exact ⟨m, rfl⟩
  | cons text presets ih =>
    obtain ⟨⟨r, word, hfirst⟩, hrest⟩ := List.forall_mem_cons.1 h
    rw [applyPresets_cons, readPreset_of_assigns hfirst]
    exact ih hrest

/-- There is only one machine to which presets have been applied, since every
register and everything else is told. -/
theorem eq {m₁ m₂ : Machine} (h₁ : Applied presets m m₁)
    (h₂ : Applied presets m m₂) :
    m₁ = m₂ := by
  have hbank : m₁.bank = m₂.bank :=
    Bank.ext_get fun r => (h₁.register r).eq (h₂.register r)
  rw [h₁.others, h₂.others, hbank]

end Applied

/-- Presets are carried out exactly with the machine to which they
have been applied. -/
theorem applyPresets_eq_ok_iff :
    applyPresets presets m = .ok () m' ↔ Applied presets m m' := by
  refine ⟨Applied.of_ok, fun h => ?_⟩
  obtain ⟨m₁, hrun⟩ := Applied.exists_ok h.assigns (m := m)
  rw [hrun, (Applied.of_ok hrun).eq h]

/-- A row of presets fails at the first bad one, with those before it applied
and none of those behind it looked at. -/
theorem applyPresets_eq_error_iff :
    applyPresets presets m = .error e m' ↔
      ∃ before bad after, presets = before ++ bad :: after ∧
        Applied before m m' ∧ IsBad bad e := by
  constructor
  · intro h
    obtain ⟨before, bad, after, m₁, hsplit, hbefore, hbad⟩ :=
      Action.forM_eq_error.1 h
    cases hread : readPreset bad with
    | ok assignment =>
      rw [hread] at hbad
      cases hbad
    | error cause =>
      rw [hread] at hbad
      cases hbad
      exact ⟨before, bad, after, hsplit, .of_ok hbefore,
        readPreset_eq_error_iff.1 hread⟩
  · rintro ⟨before, bad, after, hsplit, hbefore, hbad⟩
    have hrun : applyPresets before m = .ok () m' :=
      applyPresets_eq_ok_iff.2 hbefore
    refine Action.forM_eq_error.2 ⟨before, bad, after, m', hsplit, hrun, ?_⟩
    rw [readPreset_of_isBad hbad]
    rfl

/-- A row of presets is carried out if each text is an assignment, to a register
in any spelling between blanks, and each register then holds the word that was
assigned to it last.  If not, the first bad text is reported, an unknown name as
it was given, with those before it carried out.  The names that are accepted are
the same whether a register is read or set, and are about the same register, of
which there is only one. -/
theorem presets_applied_in_order :
    (∀ presets m,
      ((∃ m', applyPresets presets m = .ok () m') ↔
          ∀ text ∈ presets, ∃ r word, Assigns text r word) ∧
        (∀ m', applyPresets presets m = .ok () m' ↔ Applied presets m m') ∧
        ∀ e m', applyPresets presets m = .error e m' ↔
          ∃ before bad after, presets = before ++ bad :: after ∧
            Applied before m m' ∧ IsBad bad e) ∧
      (∀ name, (PresetError.register ⟨name⟩).message =
        "register " ++ Quoted.quote name ++ " does not exist") ∧
      ∀ name (m : Machine) value,
        ((∃ m', m.setRegisterNamed name value = .ok m') ↔ ∃ r, Spelled name r) ∧
          ((∃ word, m.registerNamed name = .ok word) ↔ ∃ r, Spelled name r) ∧
          ∀ r, Spelled name r →
            m.setRegisterNamed name value = .ok (m.setRegister r value) ∧
              m.registerNamed name = .ok (m.register r) ∧
                ∀ s, Spelled name s → s = r := by
  refine ⟨fun presets m => ⟨⟨?_, Applied.exists_ok⟩, fun m' =>
    applyPresets_eq_ok_iff,
    fun e m' => applyPresets_eq_error_iff⟩, fun name => rfl, fun name m value => ?_⟩
  · rintro ⟨m', hrun⟩
    exact (Applied.of_ok hrun).assigns
  · refine ⟨m.exists_setRegisterNamed_iff, m.exists_registerNamed_iff,
      fun r hr => ?_⟩
    exact ⟨m.setRegisterNamed_of_spelled value hr,
      m.registerNamed_of_spelled hr, fun s => hr.eq⟩

/-- Of two presets for one register, in different spellings, the second one
counts, and what it leaves can be read in a third. -/
theorem second_preset_counts : ∃ m',
    applyPresets ["r1=1", " R1 = 0x2"] Machine.default = .ok () m' ∧
      m'.register .r1 = 2 ∧ m'.registerNamed "R1\t" = .ok 2 := by
  obtain ⟨hrow, -, hnames⟩ := presets_applied_in_order
  obtain ⟨hsucceeds, hwhen, -⟩ := hrow ["r1=1", " R1 = 0x2"] Machine.default
  have hfirst : Assigns "r1=1" .r1 1 := readPreset_eq_ok_iff.1 (by decide)
  have hsecond : Assigns " R1 = 0x2" .r1 2 := readPreset_eq_ok_iff.1 (by decide)
  have hgood : ∀ text ∈ ["r1=1", " R1 = 0x2"], ∃ r word, Assigns text r word := by
    simp only [List.forall_mem_cons, List.not_mem_nil, false_implies,
      implies_true, and_true]
    exact ⟨⟨.r1, 1, hfirst⟩, .r1, 2, hsecond⟩
  obtain ⟨m', hrun⟩ := hsucceeds.2 hgood
  have hlast :
      HoldsLast ["r1=1", " R1 = 0x2"] .r1 (Machine.default.register .r1) 2 :=
    .inl ⟨["r1=1"], " R1 = 0x2", [], rfl, hsecond, List.forall_mem_nil _⟩
  have hword : m'.register .r1 = 2 := (((hwhen m').1 hrun).register .r1).eq hlast
  have hspelled : Spelled "R1\t" .r1 := Register.parse_eq_ok_iff.1 (by decide)
  obtain ⟨-, hread, -⟩ := (hnames "R1\t" m' 0).2.2 .r1 hspelled
  exact ⟨m', hrun, hword, by rw [hread, hword]⟩

end StackMachine.CommandLine
