import Mathlib.Data.List.Forall2
import StackMachine.Machine.Basic
import StackMachine.Proofs.InstructionText
import StackMachine.Proofs.WordText

/-!
# The names of registers

A text names a register if, without the blanks at its ends, it is the name of
the register in letters of either case.  To read a register by its name and to
set it by its name accept the same texts and are about the same register.

## Main definitions

* `Register.SameLetter` — two characters that differ at most in the case of a
  letter
* `Register.Spelled` — a text names a register

## Main statements

* `Blank.Trimmed.eq_trimChars` — what is left of a text without its blanks is
  one text only
* `Register.sameLetter_iff` — characters that differ in case are made the same
  by small letters
* `Register.parse_eq_ok_iff`, `Register.parse_eq_error_iff` — what is read as a
  register
* `Machine.registerNamed_of_spelled`, `Machine.setRegisterNamed_of_spelled` —
  the same register is read and set

## Design notes

**Case is told by the alphabet.**  That two letters are the same is said by
their place among the small and the capital letters, of which there are
twenty-six each.  No other character has a case.
-/

namespace StackMachine

namespace Blank

variable {text front rest inner : List Char}

/-- Blanks in front are dropped, whatever follows. -/
theorem dropFront_append_of_blank (h : ∀ c ∈ front, isBlank c) :
    dropFront (front ++ rest) = dropFront rest := List.dropWhile_append_of_pos h

/-- Whatever blanks are taken off, the same is left.  So it can be said without
a function what a text without its blanks is. -/
theorem Trimmed.eq_trimChars (h : Trimmed text inner) : inner = trimChars text := by
  obtain ⟨front, back, rfl, hfront, hback⟩ := h.blanks
  have hstart : dropFront (front ++ inner ++ back) = dropFront (inner ++ back) := by
    rw [List.append_assoc, dropFront_append_of_blank hfront]
  have hend : dropFront (inner ++ back).reverse = inner.reverse := by
    rw [List.reverse_append, dropFront_append_of_blank, dropFront_of_head]
    · rw [List.head?_reverse]
      exact h.last
    · exact fun c hc => hback c (List.mem_reverse.1 hc)
  rw [trimChars, hstart]
  cases inner with
  | nil =>
    -- Nothing but blanks: the ones behind are taken off from the front as well.
    have hblank : dropFront back = [] := by
      rw [← List.append_nil back, dropFront_append_of_blank hback]
      rfl
    rw [List.nil_append, hblank]
    rfl
  | cons c rest =>
    have hsame : dropFront (c :: rest ++ back) = c :: rest ++ back :=
      dropFront_of_head h.head
    rw [hsame, hend, List.reverse_reverse]

end Blank

namespace Register

variable {text : String} {r s : Register} {c d : Char}

/-! ### Letters of either case -/

/-- The small letters. -/
def smallLetters : List Char := "abcdefghijklmnopqrstuvwxyz".toList

/-- The capital letters, in the same order. -/
def capitals : List Char := "ABCDEFGHIJKLMNOPQRSTUVWXYZ".toList

/-- A character is the small letter to a capital one. -/
def IsSmallOf (small capital : Char) : Prop :=
  ∃ i : Nat, smallLetters[i]? = some small ∧ capitals[i]? = some capital

/-- Two characters are the same but for the case of a letter. -/
def SameLetter (c d : Char) : Prop := c = d ∨ IsSmallOf c d ∨ IsSmallOf d c

/-- Letters whose numbers follow one another are told by their numbers.  Both
alphabets are such rows. -/
theorem getElem?_eq_some_iff_toNat {letters : List Char} {start i : Nat}
    (h : letters.map Char.toNat = List.range' start 26) :
    letters[i]? = some c ↔ i < 26 ∧ c.toNat = start + i := by
  have hinj : Function.Injective Char.toNat := fun _ _ => Char.toNat_inj.1
  rw [← (Option.map_injective hinj).eq_iff, ← List.getElem?_map, h, Option.map_some,
    List.getElem?_eq_some_iff]
  simp [eq_comm]

/-- A small letter has the number of the capital and thirty-two more. -/
theorem isSmallOf_iff :
    IsSmallOf c d ↔ 65 ≤ d.toNat ∧ d.toNat ≤ 90 ∧ c.toNat = d.toNat + 32 := by
  have hsmall : smallLetters.map Char.toNat = List.range' 97 26 := by decide
  have hcapital : capitals.map Char.toNat = List.range' 65 26 := by decide
  simp only [IsSmallOf, getElem?_eq_some_iff_toNat hsmall,
    getElem?_eq_some_iff_toNat hcapital]
  constructor
  · rintro ⟨i, ⟨hi, hc⟩, -, hd⟩
    omega
  · rintro ⟨hge, hle, hc⟩
    exact ⟨d.toNat - 65, ⟨by omega, by omega⟩, by omega, by omega⟩

/-- Capital letters are moved by thirty-two, and no other character is moved. -/
theorem toNat_toLower (c : Char) :
    c.toLower.toNat = if 65 ≤ c.toNat ∧ c.toNat ≤ 90 then c.toNat + 32
      else c.toNat := by
  have hge : 'A'.val ≤ c.val ↔ 65 ≤ c.toNat := UInt32.le_iff_toNat_le
  have hle : c.val ≤ 'Z'.val ↔ c.toNat ≤ 90 := UInt32.le_iff_toNat_le
  have hcapital : (c.val ≥ 'A'.val ∧ c.val ≤ 'Z'.val) ↔
      65 ≤ c.toNat ∧ c.toNat ≤ 90 :=
    and_congr hge hle
  by_cases h : 65 ≤ c.toNat ∧ c.toNat ≤ 90
  · have hlower : c.toLower.toNat = (c.toNat + 32) % 4294967296 :=
      congrArg Char.toNat (dif_pos (hcapital.2 h))
    rw [if_pos h, hlower, Nat.mod_eq_of_lt (by omega)]
  · have hlower : c.toLower = c := dif_neg (mt hcapital.1 h)
    rw [if_neg h, hlower]

/-- Two characters are the same but for their case exactly if small letters
make them the same. -/
theorem sameLetter_iff : SameLetter c d ↔ c.toLower = d.toLower := by
  rw [SameLetter, isSmallOf_iff, isSmallOf_iff, ← Char.toNat_inj,
    ← Char.toNat_inj, toNat_toLower, toNat_toLower]
  split <;> split <;> omega

/-! ### Names -/

/-- A text, without the blanks at its ends, is the name of a register but for
the case of its letters. -/
def Spelled (text : String) (r : Register) : Prop :=
  ∃ inner, Blank.Trimmed text.toList inner ∧
    List.Forall₂ SameLetter inner r.name.toList

/-- A text is looked up as the register whose name it is. -/
theorem named?_eq_some_iff : named? text = some r ↔ r.name = text := by
  constructor
  · intro h
    unfold named? at h
    simpa using List.find?_some h
  · rintro rfl
    exact named?_name r

/-- A text names a register if small letters make it the name of the register.
The names themselves are written in small letters. -/
theorem spelled_iff :
    Spelled text r ↔
      r.name = String.ofList ((Blank.trimChars text.toList).map Char.toLower) := by
  have hsmall : r.name.toList.map Char.toLower = r.name.toList := by
    cases r <;> decide
  have hletters : ∀ inner, List.Forall₂ SameLetter inner r.name.toList ↔
      inner.map Char.toLower = r.name.toList := by
    intro inner
    have hsame : SameLetter = fun c d => c.toLower = d.toLower := by
      funext c d
      exact propext sameLetter_iff
    calc List.Forall₂ SameLetter inner r.name.toList
        ↔ List.Forall₂ (fun c d => c.toLower =
          d.toLower) inner r.name.toList := by rw [hsame]
      _ ↔ List.Forall₂ (· = ·) (inner.map Char.toLower)
        (r.name.toList.map Char.toLower) := by
          rw [List.forall₂_map_left_iff, List.forall₂_map_right_iff]
      _ ↔ inner.map Char.toLower = r.name.toList := by
        rw [List.forall₂_eq_eq_eq, hsmall]
  rw [← String.toList_inj, String.toList_ofList, eq_comm, ← hletters]
  constructor
  · rintro ⟨inner, htrimmed, hspelled⟩
    rwa [← htrimmed.eq_trimChars]
  · exact fun hspelled => ⟨_, Blank.trimmed_trimChars _, hspelled⟩

/-- No text names two registers, since no two have the same name. -/
theorem Spelled.eq (hr : Spelled text r) (hs : Spelled text s) : s = r :=
  name_inj ((spelled_iff.1 hs).trans (spelled_iff.1 hr).symm)

/-- A text is read as the register that it names. -/
theorem parse_eq_ok_iff : parse text = .ok r ↔ Spelled text r := by
  rw [spelled_iff, ← named?_eq_some_iff, parse]
  split
  · next found h => rw [h, Except.ok.injEq, Option.some_inj]
  · next h => simp [h]

/-- If it names none, it is reported as it was given, blanks and all. -/
theorem parse_eq_error_iff {e : UnknownRegister} :
    parse text = .error e ↔ (∀ r, ¬Spelled text r) ∧ e = ⟨text⟩ := by
  constructor
  · intro h
    refine ⟨fun r hr => ?_, ?_⟩
    · rw [parse_eq_ok_iff.2 hr] at h
      cases h
    · unfold parse at h
      split at h <;> cases h
      rfl
  · rintro ⟨hnone, rfl⟩
    cases hparse : parse text with
    | ok r => exact absurd (parse_eq_ok_iff.1 hparse) (hnone r)
    | error e =>
      unfold parse at hparse
      split at hparse <;> cases hparse
      rfl

end Register

namespace Machine

open Register (Spelled)

variable {name : String} {r : Register} {value : UInt16}

/-- A text that names a register can be used to read it. -/
theorem registerNamed_of_spelled (m : Machine) (h : Spelled name r) :
    m.registerNamed name = .ok (m.register r) := by
  rw [registerNamed, Register.parse_eq_ok_iff.2 h]
  rfl

/-- It can be used to set the same register. -/
theorem setRegisterNamed_of_spelled (m : Machine) (value : UInt16)
    (h : Spelled name r) :
    m.setRegisterNamed name value = .ok (m.setRegister r value) := by
  rw [setRegisterNamed, Register.parse_eq_ok_iff.2 h]
  rfl

/-- Texts that name no register cannot be used to read one. -/
theorem exists_registerNamed_iff (m : Machine) :
    (∃ word, m.registerNamed name = .ok word) ↔ ∃ r, Spelled name r := by
  simp only [← Register.parse_eq_ok_iff, registerNamed]
  cases Register.parse name <;> simp

/-- Nor can they be used to set one. -/
theorem exists_setRegisterNamed_iff (m : Machine) :
    (∃ m', m.setRegisterNamed name value = .ok m') ↔ ∃ r, Spelled name r := by
  simp only [← Register.parse_eq_ok_iff, setRegisterNamed]
  cases Register.parse name <;> simp

end Machine

end StackMachine
