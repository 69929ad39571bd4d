import StackMachine.Json.Writer
import StackMachine.Proofs.DocumentTokens

/-!
# The text of a document

A document that is written is scanned to its tokens, whatever blanks stand
between them, and so is read as the document that it was.  What this asks of the
document is only that its literals are literals.

## Main definitions

* `Json.Scanner.Reads` — what the scanner does with characters in a row
* `Json.Settled`, `Json.Complete` — texts that consist of certain tokens
* `Json.IsNumber`, `Json.IsText`, `Json.Legible` — literals that can be read,
  and documents with such literals only
* `Json.Spacing.IsBlank` — a spacing that adds nothing but blanks

## Main statements

* `Json.complete_writeOnto` — what is written consists of the tokens of the
  document
* `Json.parse?_writeOnto` — what is written is read back

## Design notes

**A number has no end of its own.**  Behind a number the scanner waits for more
of it, so a text may consist of tokens of which the last has not been completed
yet.  That is what `Complete` allows and `Settled` does not.  A value may be
written behind a text that is settled, and leaves one that is complete; a
bracket or a comma may stand behind a complete text, and settles it.
-/

namespace StackMachine.Json

/-! ### Characters in a row -/

namespace Scanner

variable {s s₁ s₂ : Scanner} {c : Char} {chars more : List Char}
  {tokens others : List Token}

/-- Characters lead from one state to another and complete some tokens on the
way. -/
def Reads (s : Scanner) (chars : List Char) (s' : Scanner) (tokens : List Token) :
    Prop :=
  ∀ found rest, s.run found (chars ++ rest) = s'.run (tokens.reverse ++ found) rest

theorem reads_nil (s : Scanner) : Reads s [] s [] := fun _ _ => rfl

theorem reads_of_step (h : s.step c = some (s₁, tokens)) :
    Reads s [c] s₁ tokens := by
  intro found rest
  rw [List.singleton_append, run, h]

/-- What is read in two parts is read as a whole, with the tokens of one behind
those of the other. -/
theorem Reads.append (h₁ : Reads s chars s₁ tokens) (h₂ : Reads s₁ more s₂ others) :
    Reads s (chars ++ more) s₂ (tokens ++ others) := by
  intro found rest
  rw [List.append_assoc, h₁, h₂, List.reverse_append, List.append_assoc]

/-- The characters between tokens. -/
def blanks : List Char := [' ', '\n', '\r', '\t']

/-- The characters that end a number: blanks and tokens of one character. -/
def separators : List Char := blanks ++ ['[', ']', '\x7b', '\x7d', ',', ':']

/-- No separator goes on with a number, wherever in the number it comes. -/
theorem next?_of_separator (hc : c ∈ separators) (part : NumberPart) :
    part.next? c = none := by
  have hall : separators.all fun c => part.next? c = none := by
    cases part <;> decide
  exact of_decide_eq_true (List.all_eq_true.1 hall c hc)

theorem start_of_blank (hc : c ∈ blanks) : start c = some (between, []) := by
  have hall : blanks.all fun c => start c = some (between, []) := by decide
  exact of_decide_eq_true (List.all_eq_true.1 hall c hc)

/-- Where the text may end, a separator ends what is under way.  A number has no
end of its own, so it needs one. -/
theorem step_of_finish (hfinish : s.finish = some others) (hc : c ∈ separators)
    (hstart : start c = some (between, tokens)) :
    s.step c = some (between, others ++ tokens) := by
  cases s with
  | between =>
    cases hfinish
    exact hstart
  | number part read =>
    rw [finish] at hfinish
    split at hfinish
    · next hcomplete =>
      cases hfinish
      rw [step, next?_of_separator hc part]
      simp only [hcomplete, if_true, hstart, Option.map_some]
      rfl
    · cases hfinish
  | name | text | escape | code => cases hfinish

end Scanner

open Scanner (Reads blanks separators reads_nil reads_of_step start_of_blank
  step_of_finish)

variable {before word : String} {gap literal : List Char} {c : Char}
  {tokens others : List Token}

/-! ### Texts that consist of tokens -/

/-- A text that consists of tokens, the last of which has been completed. -/
def Settled (text : String) (tokens : List Token) : Prop :=
  Reads .between text.toList .between tokens

/-- A text that consists of tokens, if it ends here. -/
def Complete (text : String) (tokens : List Token) : Prop :=
  ∃ s done last, Reads .between text.toList s done ∧ s.finish = some last ∧
    tokens = done ++ last

theorem settled_empty : Settled "" [] := reads_nil _

/-- A text with nothing under way is complete as it stands. -/
theorem Settled.complete (h : Settled before tokens) : Complete before tokens :=
  ⟨.between, tokens, [], h, rfl, (List.append_nil tokens).symm⟩

/-- A complete text is scanned as its tokens.  In the end this is all that is
asked of what is written. -/
theorem scan_of_complete (h : Complete before tokens) :
    scan before.toList = some tokens := by
  obtain ⟨s, done, last, hreads, hfinish, rfl⟩ := h
  have hrun := hreads [] []
  rw [List.append_nil, Scanner.run, hfinish] at hrun
  rw [scan, hrun]
  simp

/-- Behind a text with nothing under way, words are scanned as they
are by themselves. -/
theorem Settled.append (h : Settled before tokens)
    (hword : Reads .between word.toList .between others) :
    Settled (before ++ word) (tokens ++ others) := by
  rw [Settled, String.toList_append]
  exact Reads.append h hword

/-- A separator completes what is in front of it, and ends a number if there
is one under way. -/
theorem Complete.mark (h : Complete before tokens) (c : Char) (hc : c ∈ separators)
    (hstart : Scanner.start c = some (.between, others)) :
    Settled (before ++ String.singleton c) (tokens ++ others) := by
  obtain ⟨s, done, last, hreads, hfinish, rfl⟩ := h
  rw [Settled, String.toList_append, String.toList_singleton, List.append_assoc]
  exact hreads.append (reads_of_step (step_of_finish hfinish hc hstart))

/-- Characters that are all blanks. -/
def IsBlank (gap : List Char) : Prop := ∀ c ∈ gap, c ∈ blanks

/-- Blanks add no tokens. -/
theorem reads_of_isBlank (h : IsBlank gap) : Reads .between gap .between [] := by
  induction gap with
  | nil => exact reads_nil _
  | cons c rest ih =>
    have hc : Scanner.between.step c = some (.between, []) :=
      start_of_blank (h c List.mem_cons_self)
    exact (reads_of_step hc).append (ih fun d hd => h d (List.mem_cons_of_mem c hd))

/-- Blanks may be written wherever nothing is under way. -/
theorem Settled.blank (h : Settled before tokens) (hword : IsBlank word.toList) :
    Settled (before ++ word) tokens := by
  have happend := h.append (reads_of_isBlank hword)
  rwa [List.append_nil] at happend

/-- They may also be written behind a number, which they end. -/
theorem Complete.blank (h : Complete before tokens) (hword : IsBlank word.toList) :
    Complete (before ++ word) tokens := by
  obtain ⟨s, done, last, hreads, hfinish, rfl⟩ := h
  rw [Complete, String.toList_append]
  cases hgap : word.toList with
  | nil =>
    rw [List.append_nil]
    exact ⟨s, done, last, hreads, hfinish, rfl⟩
  | cons c rest =>
    -- The first blank completes a number, and the others stand behind a settled
    -- text.
    rw [hgap] at hword
    have hc : c ∈ blanks := hword c List.mem_cons_self
    have hfirst := reads_of_step
      (step_of_finish hfinish (List.mem_append_left _ hc) (start_of_blank hc))
    have hrest := reads_of_isBlank fun d hd => hword d (List.mem_cons_of_mem c hd)
    refine ⟨.between, done ++ last, [], ?_, rfl, (List.append_nil _).symm⟩
    have hall := hreads.append (hfirst.append hrest)
    simpa using hall

/-! ### Literals -/

/-- Characters that are read as one number. -/
def IsNumber (literal : List Char) : Prop :=
  ∃ part, NumberPart.isComplete part ∧
    Reads .between literal (.number part literal.reverse) []

/-- Characters that are read as one text between quotes. -/
def IsText (literal : List Char) : Prop :=
  Reads (.text []) literal (.text literal.reverse) []

/-- A number is under way until something ends it, so behind it the text is
complete and not settled. -/
theorem Settled.number (h : Settled before tokens) (hliteral : IsNumber literal) :
    Complete (before ++ String.ofList literal) (tokens ++ [.number literal]) := by
  obtain ⟨part, hpart, hreads⟩ := hliteral
  refine ⟨.number part literal.reverse, tokens, [.number literal], ?_, ?_, rfl⟩
  · rw [String.toList_append, String.toList_ofList]
    simpa using Reads.append h hreads
  · rw [Scanner.finish, if_pos hpart, List.reverse_reverse]

theorem toList_between (literal : List Char) :
    (between literal).toList = ['"'] ++ literal ++ ['"'] := by
  simp [between]

/-- A literal between quotes is a text, and the second quote ends it. -/
theorem Settled.text (h : Settled before tokens) (hliteral : IsText literal) :
    Settled (before ++ between literal) (tokens ++ [.text literal]) := by
  have hopen : Reads .between ['"'] (.text []) [] := reads_of_step rfl
  have hclose : Reads (.text literal.reverse) ['"'] .between [.text literal] := by
    refine reads_of_step ?_
    show some (Scanner.between, [Token.text literal.reverse.reverse]) = _
    rw [List.reverse_reverse]
  refine h.append ?_
  rw [toList_between]
  exact (hopen.append hliteral).append hclose

/-- A document with literals only that can be read. -/
inductive Legible : Json → Prop where
  | null : Legible .null
  | bool (value : Bool) : Legible (.bool value)
  | number {literal : List Char} (hliteral : IsNumber literal) :
      Legible (.number literal)
  | text {literal : List Char} (hliteral : IsText literal) : Legible (.text literal)
  | array {items : List Json} (hitems : ∀ item ∈ items, Legible item) :
      Legible (.array items)
  | object {members : List (List Char × Json)}
      (hkeys : ∀ member ∈ members, IsText member.1)
    (hvalues : ∀ member ∈ members, Legible member.2) : Legible (.object members)

/-! ### Documents -/

/-- A spacing that adds nothing but blanks. -/
structure Spacing.IsBlank (spacing : Spacing) : Prop where
  /-- In front of a part there are blanks. -/
  newline : ∀ depth, Json.IsBlank (spacing.newline depth).toList
  /-- Behind a key there are blanks behind the colon. -/
  colon : ∃ gap, spacing.colon = ":" ++ gap ∧ Json.IsBlank gap.toList

theorem Spacing.isBlank_none : Spacing.none.IsBlank where
  newline _ := List.forall_mem_nil _
  colon := ⟨"", rfl, List.forall_mem_nil _⟩

theorem Spacing.isBlank_lines : Spacing.lines.IsBlank where
  newline depth := by
    have hline : (Spacing.lines.newline depth).toList =
        '\n' :: List.replicate (2 * depth) ' ' := by
      simp [Spacing.lines]
    rw [hline]
    intro c hc
    rcases List.mem_cons.1 hc with rfl | hc
    · simp [blanks]
    · simp [blanks, List.eq_of_mem_replicate hc]
  colon := ⟨" ", rfl, by simp [Json.IsBlank, blanks]⟩

section Writing

variable {spacing : Spacing} (hspacing : spacing.IsBlank)
include hspacing

/-- A separator with the blanks of a new line behind it.  How deep the line is
indented makes no difference. -/
theorem Complete.mark_newline (h : Complete before tokens) (c : Char)
    (hc : c ∈ separators) (hstart : Scanner.start c = some (.between, others))
    (depth : Nat) :
    Settled (before ++ String.singleton c ++ spacing.newline depth)
      (tokens ++ others) :=
  (h.mark c hc hstart).blank (hspacing.newline depth)

/-- A separator with the blanks of a new line in front of it, as a
closing bracket has. -/
theorem Complete.newline_mark (h : Complete before tokens) (c : Char)
    (hc : c ∈ separators) (hstart : Scanner.start c = some (.between, others))
    (depth : Nat) :
    Settled (before ++ spacing.newline depth ++ String.singleton c)
      (tokens ++ others) :=
  (h.blank (hspacing.newline depth)).mark c hc hstart

/-- A key with its colon.  The blank that may stand behind the colon
belongs to the spacing. -/
theorem Settled.key (h : Settled before tokens) (hliteral : IsText literal) :
    Settled (before ++ between literal ++ spacing.colon)
      (tokens ++ [.text literal, .colon]) := by
  obtain ⟨gap, hcolon, hgap⟩ := hspacing.colon
  have hmark := (h.text hliteral).complete.mark ':' (by decide) rfl
  rw [List.append_assoc] at hmark
  rw [hcolon, ← String.append_assoc]
  exact hmark.blank hgap

mutual

/-- A document that is written behind a text adds its tokens.  The induction
goes with those on items and members, as the writers call one another. -/
theorem complete_writeOnto : ∀ (document : Json), document.Legible → ∀ (depth : Nat)
    (before : String) (found : List Token), Settled before found →
    Complete (document.writeOnto spacing depth before) (found ++ document.tokens)
  | .null, _, _, before, found, hbefore => by
    have hword : Reads .between "null".toList .between [.null] := fun _ _ => rfl
    exact (hbefore.append hword).complete
  | .bool true, _, _, before, found, hbefore => by
    have hword :
        Reads .between "true".toList .between [.bool true] := fun _ _ => rfl
    exact (hbefore.append hword).complete
  | .bool false, _, _, before, found, hbefore => by
    have hword :
        Reads .between "false".toList .between [.bool false] := fun _ _ => rfl
    exact (hbefore.append hword).complete
  | .number literal, h, _, before, found, hbefore => by
    cases h with
    | number hliteral => exact hbefore.number hliteral
  | .text literal, h, _, before, found, hbefore => by
    cases h with
    | text hliteral => exact (hbefore.text hliteral).complete
  | .array [], _, _, before, found, hbefore => by
    have hword : Reads .between "[]".toList .between
        [.openArray, .closeArray] := fun _ _ => rfl
    exact (hbefore.append hword).complete
  | .array (item :: items), h, depth, before, found, hbefore => by
    cases h with
    | array hlegible =>
      obtain ⟨hhead, htail⟩ := List.forall_mem_cons.1 hlegible
      have hopen :=
        hbefore.complete.mark_newline hspacing '[' (by decide) rfl (depth + 1)
      have hitem := complete_writeOnto item hhead (depth + 1) _ _ hopen
      have hitems := complete_writeItems items htail (depth + 1) _ _ hitem
      have hclose := hitems.newline_mark hspacing ']' (by decide) rfl depth
      have htokens : found ++ (array (item :: items)).tokens =
          found ++ [.openArray] ++ item.tokens ++ itemTokens items ++
            [.closeArray] := by
        simp [tokens]
      rw [htokens, writeOnto]
      exact hclose.complete
  | .object [], _, _, before, found, hbefore => by
    have hword :
        Reads .between "\x7b\x7d".toList .between [.openObject, .closeObject] :=
      fun _ _ => rfl
    exact (hbefore.append hword).complete
  | .object ((key, value) :: members), h, depth, before, found, hbefore => by
    cases h with
    | object hkeys hvalues =>
      obtain ⟨hkey, hotherKeys⟩ := List.forall_mem_cons.1 hkeys
      obtain ⟨hvalue, hotherValues⟩ := List.forall_mem_cons.1 hvalues
      have hopen :=
        hbefore.complete.mark_newline hspacing '\x7b' (by decide) rfl (depth + 1)
      have hfirst :=
        complete_writeOnto value hvalue (depth + 1) _ _ (hopen.key hspacing hkey)
      have hmembers :=
        complete_writeMembers members hotherKeys hotherValues (depth + 1) _ _ hfirst
      have hclose := hmembers.newline_mark hspacing '\x7d' (by decide) rfl depth
      have htokens : found ++ (object ((key, value) :: members)).tokens =
          found ++ [.openObject] ++ [.text key, .colon] ++ value.tokens ++
            memberTokens members ++
            [.closeObject] := by
        simp [tokens]
      rw [htokens, writeOnto]
      exact hclose.complete

/-- Items that are written behind others add their tokens, each with a comma in
front. -/
theorem complete_writeItems :
    ∀ (items : List Json), (∀ item ∈ items, item.Legible) →
    ∀ (depth : Nat) (before : String) (found : List Token), Complete before found →
    Complete (writeItems spacing depth before items) (found ++ itemTokens items)
  | [], _, depth, before, found, hbefore => by
    rw [writeItems, itemTokens, List.append_nil]
    exact hbefore
  | item :: items, h, depth, before, found, hbefore => by
    obtain ⟨hhead, htail⟩ := List.forall_mem_cons.1 h
    have hcomma := hbefore.mark_newline hspacing ',' (by decide) rfl depth
    have hitem := complete_writeOnto item hhead depth _ _ hcomma
    have hitems := complete_writeItems items htail depth _ _ hitem
    have htokens : found ++ itemTokens (item :: items) =
        found ++ [.comma] ++ item.tokens ++ itemTokens items := by
      simp [itemTokens]
    rw [htokens, writeItems]
    exact hitems

/-- Members that are written behind others add their tokens, each with a comma
in front and a key. -/
theorem complete_writeMembers : ∀ (members : List (List Char × Json)),
    (∀ member ∈ members, IsText member.1) → (∀ member ∈ members, member.2.Legible) →
    ∀ (depth : Nat) (before : String) (found : List Token), Complete before found →
    Complete (writeMembers spacing depth before members)
      (found ++ memberTokens members)
  | [], _, _, depth, before, found, hbefore => by
    rw [writeMembers, memberTokens, List.append_nil]
    exact hbefore
  | (key, value) :: members, hkeys, hvalues, depth, before, found, hbefore => by
    obtain ⟨hkey, hotherKeys⟩ := List.forall_mem_cons.1 hkeys
    obtain ⟨hvalue, hotherValues⟩ := List.forall_mem_cons.1 hvalues
    have hcomma := hbefore.mark_newline hspacing ',' (by decide) rfl depth
    have hfirst :=
      complete_writeOnto value hvalue depth _ _ (hcomma.key hspacing hkey)
    have hmembers :=
      complete_writeMembers members hotherKeys hotherValues depth _ _ hfirst
    have htokens : found ++ memberTokens ((key, value) :: members) =
        found ++ [.comma] ++ [.text key, .colon] ++ value.tokens ++
          memberTokens members := by
      simp [memberTokens]
    rw [htokens, writeMembers]
    exact hmembers

end

/-- A document is read back as it was written, in either spacing. -/
theorem parse?_writeOnto {document : Json} (h : document.Legible) (depth : Nat) :
    parse? (document.writeOnto spacing depth "") = some document := by
  have hscan := scan_of_complete
    (complete_writeOnto hspacing document h depth "" [] settled_empty)
  rw [parse?, hscan, Option.bind_some, List.nil_append, ofTokens?_tokens]

end Writing

theorem parse?_compact {document : Json} (h : document.Legible) :
    parse? document.compact = some document :=
  parse?_writeOnto Spacing.isBlank_none h 0

theorem parse?_pretty {document : Json} (h : document.Legible) :
    parse? document.pretty = some document :=
  parse?_writeOnto Spacing.isBlank_lines h 0

end StackMachine.Json
