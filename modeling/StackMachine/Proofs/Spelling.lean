import StackMachine.Proofs.TextForms
import StackMachine.Proofs.TokenRows

/-!
# The spelling of documents

A text is a document if it consists of the tokens of that document, each spelled
as it should be, with blanks in front of them, between them and behind the last
one.

## Main definitions

* `Json.Token.Spells`, `Json.Spells` — the characters of a token, and of a row
  of tokens
* `Json.WrittenAs` — the texts that are a document
* `Json.Scanner.Continues` — what is still to come of a text behind a state of
  the scanner

## Main statements

* `Json.spells_of_scan` — what is scanned spells the tokens that are found
* `Json.complete_of_spells` — what spells tokens is scanned as those tokens
* `Json.parse?_eq_some_iff` — a text is read as a document exactly if it is that
  document

## Design notes

**A row may be spelled in a way that is not read.**  Two numbers that touch are
read as one.  In the row of a document that cannot happen, and the rows of
documents are all that matters here.
-/

namespace StackMachine.Json

open Scanner (blanks separators)

/-- The tokens of one character. -/
def marks : List (Char × Token) :=
  [('[', .openArray), (']', .closeArray), ('\x7b', .openObject),
    ('\x7d', .closeObject), (',', .comma), (':', .colon)]

/-- The tokens that are names. -/
def names : List (String × Token) :=
  [("null", .null), ("true", .bool true), ("false", .bool false)]

/-- The characters of a token. -/
inductive Token.Spells : Token → List Char → Prop where
  | mark {token : Token} {c : Char} (hmark : (c, token) ∈ marks) : Spells token [c]
  | name {token : Token} {plain : String} (hname : (plain, token) ∈ names) :
    Spells token plain.toList
  | number {literal : List Char} (hliteral : NumberForm literal) :
      Spells (.number literal) literal
  | text {literal : List Char} (hliteral : TextForm literal) :
    Spells (.text literal) ('"' :: (literal ++ ['"']))

/-- The characters of tokens in a row, with blanks around them. -/
inductive Spells : List Token → List Char → Prop where
  | nil {gap : List Char} (hgap : IsBlank gap) : Spells [] gap
  | cons {token : Token} {tokens : List Token} {gap word rest : List Char}
      (hgap : IsBlank gap)
    (hword : token.Spells word) (hrest : Spells tokens rest) :
    Spells (token :: tokens) (gap ++ (word ++ rest))

/-- A text is a document. -/
def WrittenAs (document : Json) (text : String) : Prop :=
  Spells document.tokens text.toList

variable {c : Char} {token : Token} {tokens others done : List Token}
  {gap word rest chars literal : List Char} {before : String}

theorem isBlank_nil : IsBlank [] := List.forall_mem_nil _

theorem Spells.unspaced (hword : token.Spells word) (hrest : Spells tokens rest) :
    Spells (token :: tokens) (word ++ rest) := .cons isBlank_nil hword hrest

/-- One blank more in front of a text changes nothing in what it spells.  The
scanner takes blanks one by one. -/
theorem Spells.blank (hc : c ∈ blanks) (h : Spells tokens rest) :
    Spells tokens (c :: rest) := by
  cases h with
  | nil hgap => exact .nil (List.forall_mem_cons.2 ⟨hc, hgap⟩)
  | @cons token tokens gap word rest hgap hword hrest =>
    have hwider : IsBlank (c :: gap) := List.forall_mem_cons.2 ⟨hc, hgap⟩
    exact .cons hwider hword hrest

/-- Where tokens are spelled, every text among them has the form of one.  The
literals of a document need not have it by themselves. -/
theorem Spells.textForm (h : Spells tokens chars) (hmem : .text literal ∈ tokens) :
    TextForm literal := by
  induction h with
  | nil => cases hmem
  | cons _ hword _ ih =>
    rcases List.mem_cons.1 hmem with rfl | hmem
    · cases hword with
      | mark hmark => simp [marks] at hmark
      | name hname => simp [names] at hname
      | text hliteral => exact hliteral
    · exact ih hmem

/-! ### What is scanned -/

namespace Scanner

/-- What is still to come of a text behind a state, and the tokens
that it completes. -/
def Continues : Scanner → List Char → List Token → Prop
  | between, rest, tokens => Spells tokens rest
  | name left token, rest, tokens => ∃ tail others, rest = left ++ tail ∧
    tokens = token :: others ∧ Spells others tail
  | number part read, rest, tokens => ∃ word tail others, rest = word ++ tail ∧
    tokens = .number (read.reverse ++ word) :: others ∧ part.Rest word ∧
      Spells others tail
  | text read, rest, tokens => ∃ word tail others, rest = word ++ '"' :: tail ∧
    tokens = .text (read.reverse ++ word) :: others ∧ TextForm word ∧
      Spells others tail
  | escape read, rest, tokens => ∃ word tail others, rest = word ++ '"' :: tail ∧
    tokens = .text (read.reverse ++ word) :: others ∧ TextForm ('\\' :: word) ∧
      Spells others tail
  | code left read, rest, tokens => ∃ digits word tail others,
    rest = digits ++ (word ++ '"' :: tail) ∧
    tokens = .text (read.reverse ++ (digits ++ word)) :: others ∧
    digits.length = left ∧
    (∀ c ∈ digits, isHexDigit c) ∧ TextForm word ∧ Spells others tail

variable {s next : Scanner}

/-- What a character may be between tokens: a blank, a mark, or the first of
some other token. -/
inductive Starts : Char → Scanner → List Token → Prop where
  | blank {c : Char} (hc : c ∈ blanks) : Starts c between []
  | mark {c : Char} {token : Token} (hmark : (c, token) ∈ marks) :
      Starts c between [token]
  | quote : Starts '"' (text []) []
  | minus : Starts '-' (number .sign ['-']) []
  | digit {c : Char} {part : NumberPart}
      (hc : NumberPart.sign.next? c = some part) :
    Starts c (number part [c]) []
  | name {plain : String} {c : Char} {left : List Char} {token : Token}
    (hname : (plain, token) ∈ names) (hleft : plain.toList = c :: left) :
    Starts c (name left token) []

/-- A mark ends a number in front of it, and is a token by itself. -/
theorem start_of_mark (hmark : (c, token) ∈ marks) :
    c ∈ separators ∧ start c = some (between, [token]) := by
  have hall : ∀ pair ∈ marks, pair.1 ∈ separators ∧
      start pair.1 = some (between, [pair.2]) := by
    decide
  exact hall (c, token) hmark

/-- What is taken between tokens is a blank, a mark or the first character of
another token.  No other character can be taken there. -/
theorem starts_of_start (h : start c = some (next, tokens)) :
    Starts c next tokens := by
  by_cases hblank : c ∈ blanks
  · rw [start_of_blank hblank] at h
    cases h
    exact .blank hblank
  by_cases hmark : c ∈ marks.map (·.1)
  · obtain ⟨⟨c, token⟩, hpair, rfl⟩ := List.mem_map.1 hmark
    rw [(start_of_mark hpair).2] at h
    cases h
    exact .mark hpair
  by_cases hfirst : c ∈ ['"', '-', '0', 'n', 't', 'f']
  · simp only [List.mem_cons, List.not_mem_nil, or_false] at hfirst
    rcases hfirst with rfl | rfl | rfl | rfl | rfl | rfl <;> cases h
    · exact .quote
    · exact .minus
    · exact .digit rfl
    · exact .name (by decide : ("null", Token.null) ∈ names) rfl
    · exact .name (by decide : ("true", Token.bool true) ∈ names) rfl
    · exact .name (by decide : ("false", Token.bool false) ∈ names) rfl
  · -- What is left is a digit other than zero.
    simp only [blanks, marks, List.map_cons, List.map_nil, List.mem_cons,
      List.not_mem_nil, or_false, not_or] at hblank hmark hfirst
    unfold start at h
    simp only [hblank, hmark, hfirst, or_self, if_false] at h
    split at h
    · next hc =>
      cases h
      exact .digit (by simp [NumberPart.next?, hc, hfirst])
    · cases h

/-- What stands behind a character between tokens is spelled together with it.
Behind the first character of a token the rest of it is still to come. -/
theorem continues_of_start (h : start c = some (next, tokens))
    (hrest : next.Continues rest others) :
    Spells (tokens ++ others) (c :: rest) := by
  cases starts_of_start h with
  | blank hc => exact hrest.blank hc
  | mark hmark => exact .unspaced (.mark hmark) hrest
  | quote =>
    obtain ⟨word, tail, others, rfl, rfl, hword, htail⟩ := hrest
    have hspells := Spells.unspaced (.text hword) htail
    simpa using hspells
  | minus =>
    obtain ⟨word, tail, others, rfl, rfl, hword, htail⟩ := hrest
    exact .unspaced (.number (numberForm_of_rest hword).2) htail
  | digit hc =>
    obtain ⟨word, tail, others, rfl, rfl, hword, htail⟩ := hrest
    exact .unspaced
      (.number (numberForm_of_rest (NumberPart.rest_cons hc hword)).1) htail
  | name hname hleft =>
    obtain ⟨tail, others, rfl, rfl, htail⟩ := hrest
    have hspells := Spells.unspaced (.name hname) htail
    rw [hleft] at hspells
    exact hspells

section Step

variable {part : NumberPart} {left read : List Char} {count : Nat}

/-- A letter of a name, which has to be the next of those that are left. -/
theorem continues_of_step_name (h : (name left token).step c = some (next, tokens))
    (hrest : next.Continues rest others) :
    (name left token).Continues (c :: rest) (tokens ++ others) := by
  rcases left with _ | ⟨first, _ | ⟨second, left⟩⟩
  · cases h
  · rw [step] at h
    split at h <;> cases h
    next hc => exact ⟨rest, others, by rw [hc]; rfl, rfl, hrest⟩
  · replace h :
        (if c = first then some (name (second :: left) token, []) else none) =
        some (next, tokens) := h
    split at h <;> cases h
    next hc =>
      obtain ⟨tail, others, rfl, rfl, htail⟩ := hrest
      exact ⟨tail, others, by rw [hc]; rfl, rfl, htail⟩

/-- A character behind a part of a number goes on with the number, or ends it
and is taken as one between tokens. -/
theorem continues_of_step_number
    (h : (number part read).step c = some (next, tokens))
    (hrest : next.Continues rest others) :
    (number part read).Continues (c :: rest) (tokens ++ others) := by
  rw [step] at h
  split at h
  · next after hafter =>
    cases h
    obtain ⟨word, tail, others, rfl, rfl, hword, htail⟩ := hrest
    exact ⟨c :: word, tail, others, rfl, by simp,
      NumberPart.rest_cons hafter hword, htail⟩
  · -- The number is complete, and the character is looked at once more.
    split at h
    · next hcomplete =>
      obtain ⟨⟨after, started⟩, hstart, hpair⟩ := Option.map_eq_some_iff.1 h
      cases hpair
      exact ⟨[], c :: rest, started ++ others, rfl, by simp,
        NumberPart.rest_nil hcomplete,
        continues_of_start hstart hrest⟩
    · cases h

/-- A character inside a text: the quote that ends it, the start of an escape,
or one that stands for itself. -/
theorem continues_of_step_text (h : (text read).step c = some (next, tokens))
    (hrest : next.Continues rest others) :
    (text read).Continues (c :: rest) (tokens ++ others) := by
  rw [step] at h
  split at h
  · next hc =>
    cases h
    subst hc
    exact ⟨[], rest, others, rfl, by simp, .nil, hrest⟩
  split at h
  · next hc =>
    cases h
    subst hc
    obtain ⟨word, tail, others, rfl, rfl, hword, htail⟩ := hrest
    exact ⟨'\\' :: word, tail, others, rfl, by simp, hword, htail⟩
  split at h
  · cases h
  · next hquote hescape hprintable =>
    cases h
    obtain ⟨word, tail, others, rfl, rfl, hword, htail⟩ := hrest
    have hplain : isPlainChar c := by
      simpa [isPlainChar, hquote, hescape] using hprintable
    exact ⟨c :: word, tail, others, rfl, by simp, .plain hplain hword, htail⟩

/-- A character behind a backslash, which is one of the eight letters or
announces four digits. -/
theorem continues_of_step_escape (h : (escape read).step c = some (next, tokens))
    (hrest : next.Continues rest others) :
    (escape read).Continues (c :: rest) (tokens ++ others) := by
  rw [step] at h
  split at h
  · next hc =>
    cases h
    subst hc
    obtain ⟨digits, word, tail, others, rfl, rfl, hlength, hdigits,
      hword, htail⟩ := hrest
    have hvalue := (denotes_iff_foldl isDigit_sixteen_iff).2 ⟨hdigits, rfl⟩
    exact ⟨'u' :: (digits ++ word), tail, others, by simp, by simp,
      .code hlength hvalue hword, htail⟩
  split at h
  · next hc =>
    cases h
    obtain ⟨word, tail, others, rfl, rfl, hword, htail⟩ := hrest
    obtain ⟨⟨letter, meant⟩, hpair, rfl⟩ : ∃ pair ∈ escapes, pair.1 = c :=
      List.mem_map.1 hc
    exact ⟨letter :: word, tail, others, rfl, by simp, .escape hpair hword, htail⟩
  · cases h

/-- A digit of an escape.  Behind the last of them the text goes on. -/
theorem continues_of_step_code (h : (code count read).step c = some (next, tokens))
    (hrest : next.Continues rest others) :
    (code count read).Continues (c :: rest) (tokens ++ others) := by
  rcases count with _ | _ | count
  · cases h
  · rw [step] at h
    split at h <;> cases h
    next hc =>
      obtain ⟨word, tail, others, rfl, rfl, hword, htail⟩ := hrest
      exact ⟨[c], word, tail, others, rfl, by simp, rfl,
        List.forall_mem_singleton.2 hc, hword,
        htail⟩
  · replace h :
        (if isHexDigit c then some (code (count + 1) (c :: read), []) else none) =
        some (next, tokens) := h
    split at h <;> cases h
    next hc =>
      obtain ⟨digits, word, tail, others, rfl, rfl, hlength, hdigits,
        hword, htail⟩ := hrest
      exact ⟨c :: digits, word, tail, others, rfl, by simp,
        congrArg (· + 1) hlength,
        List.forall_mem_cons.2 ⟨hc, hdigits⟩, hword, htail⟩

end Step

/-- A character that is taken is the first of what was still to come.  There is
one case for each state of the scanner. -/
theorem continues_of_step (h : s.step c = some (next, tokens))
    (hrest : next.Continues rest others) :
    s.Continues (c :: rest) (tokens ++ others) := by
  cases s with
  | between => exact continues_of_start h hrest
  | name => exact continues_of_step_name h hrest
  | number => exact continues_of_step_number h hrest
  | text => exact continues_of_step_text h hrest
  | escape => exact continues_of_step_escape h hrest
  | code => exact continues_of_step_code h hrest

/-- Where a text may end, nothing is to come but a number that its end completes. -/
theorem continues_of_finish (h : s.finish = some tokens) :
    s.Continues [] tokens := by
  cases s with
  | between =>
    cases h
    exact .nil isBlank_nil
  | number part read =>
    rw [finish] at h
    split at h
    · next hcomplete =>
      cases h
      exact ⟨[], [], [], rfl, by simp, NumberPart.rest_nil hcomplete,
        .nil isBlank_nil⟩
    · cases h
  | name | text | escape | code => cases h

/-- What the scanner takes from some state on is what was still to come of the
text there.  The tokens found before that stand in front, in reverse. -/
theorem continues_of_run {found : List Token}
    (h : s.run found chars = some tokens) :
    ∃ others, tokens = found.reverse ++ others ∧ s.Continues chars others := by
  induction chars generalizing s found with
  | nil =>
    obtain ⟨last, hlast, rfl⟩ := Option.map_eq_some_iff.1 h
    exact ⟨last, rfl, continues_of_finish hlast⟩
  | cons c rest ih =>
    rw [run] at h
    split at h
    · next next step hstep =>
      obtain ⟨others, rfl, hothers⟩ := ih h
      exact ⟨step ++ others, by simp, continues_of_step hstep hothers⟩
    · cases h

end Scanner

/-- What is scanned spells the tokens that are found.  This is one half of what
a scanner is for, and the half that holds of all rows of tokens. -/
theorem spells_of_scan (h : scan chars = some tokens) : Spells tokens chars := by
  obtain ⟨others, rfl, hothers⟩ := Scanner.continues_of_run h
  exact hothers

/-! ### What is spelled -/

/-- A mark may stand behind any complete text, also behind one that
ends in a number. -/
theorem Complete.mark_of_mem (h : Complete before tokens)
    (hmark : (c, token) ∈ marks) :
    Settled (before ++ String.ofList [c]) (tokens ++ [token]) := by
  obtain ⟨hseparator, hstart⟩ := Scanner.start_of_mark hmark
  exact h.mark c hseparator hstart

/-- A token may stand behind a text that is settled, without blanks.  Only a
number that nothing has ended yet would be changed by it. -/
theorem Settled.spell (h : Settled before tokens) (hword : token.Spells word) :
    Complete (before ++ String.ofList word) (tokens ++ [token]) := by
  cases hword with
  | mark hmark => exact (h.complete.mark_of_mem hmark).complete
  | @name token plain hname =>
    have hall : ∀ pair ∈ names, ∀ found rest,
        Scanner.between.run found (pair.1.toList ++ rest) =
        Scanner.between.run (pair.2 :: found) rest := by
      simp only [names, List.forall_mem_cons]
      exact ⟨fun _ _ => rfl, fun _ _ => rfl, fun _ _ => rfl, List.forall_mem_nil _⟩
    have hreads : Scanner.Reads .between plain.toList .between [token] :=
      hall (plain, token) hname
    have hname := (h.append hreads).complete
    rwa [← String.ofList_toList (s := plain)] at hname
  | number hliteral => exact h.number (isNumber_of_numberForm hliteral)
  | @text literal hliteral =>
    have htext := (h.text (isText_of_textForm hliteral)).complete
    have hbetween :
        between literal = String.ofList ('"' :: (literal ++ ['"'])) := by
      rw [← String.ofList_toList (s := between literal), toList_between]
      rfl
    rwa [hbetween] at htext

/-- Behind blanks a text is settled, also if it ends in a number. -/
theorem Complete.settle (h : Complete before tokens) (hgap : IsBlank gap)
    (hne : gap ≠ []) :
    Settled (before ++ String.ofList gap) tokens := by
  obtain ⟨c, rest, rfl⟩ := List.exists_cons_of_ne_nil hne
  obtain ⟨hc, hrest⟩ := List.forall_mem_cons.1 hgap
  have hfirst := h.mark c (List.mem_append_left _ hc) (Scanner.start_of_blank hc)
  have hrest : IsBlank (String.ofList rest).toList := by rwa [String.toList_ofList]
  have hall := hfirst.blank hrest
  have hgap :
      String.ofList ([c] ++ rest) = String.singleton c ++ String.ofList rest :=
    String.ofList_append
  rwa [List.append_nil, String.append_assoc, ← hgap] at hall

/-- A text that is not settled ends in a number.  What follows has to be told
apart in this case only. -/
theorem Complete.settled_or_number (h : Complete before tokens) :
    Settled before tokens ∨ ∃ front literal, tokens =
      front ++ [.number literal] := by
  obtain ⟨s, done, last, hreads, hfinish, rfl⟩ := h
  cases s with
  | between =>
    cases hfinish
    rw [List.append_nil]
    exact .inl hreads
  | number part read =>
    rw [Scanner.finish] at hfinish
    split at hfinish
    · cases hfinish
      exact .inr ⟨done, _, rfl⟩
    · cases hfinish
  | name | text | escape | code => cases hfinish

/-- A number that is followed by a comma or a closing bracket may
touch it.  In front of every other token there has to be a blank,
unless the text is settled. -/
theorem Complete.spell (h : Complete before tokens)
    (hnumber : ∀ front literal, tokens = front ++ [.number literal] →
      token ∈ [.comma, .closeArray, .closeObject])
    (hgap : IsBlank gap) (hword : token.Spells word) :
    Complete (before ++ String.ofList (gap ++ word)) (tokens ++ [token]) := by
  rw [String.ofList_append, ← String.append_assoc]
  by_cases hne : gap = []
  · subst hne
    rw [String.ofList_nil, String.append_empty]
    rcases h.settled_or_number with hsettled | ⟨front, literal, hlast⟩
    · exact hsettled.spell hword
    · -- The number waits for what comes next, and a mark ends it.
      have htoken := hnumber front literal hlast
      cases hword with
      | mark hmark => exact (h.mark_of_mem hmark).complete
      | name hname =>
        have hall : ∀ pair ∈ names,
            pair.2 ∉ [.comma, .closeArray, .closeObject] := by decide
        exact absurd htoken (hall _ hname)
      | number | text => simp at htoken
  · exact (h.settle hgap hne).spell hword

/-- What spells tokens is scanned as those tokens, where every number
stands apart from what follows it.  Without that, two numbers could be
written into one. -/
theorem complete_of_spells (h : Spells tokens chars)
    (hbefore : Complete before done)
    (hchain : (done ++ tokens).IsChain Token.Apart) :
    Complete (before ++ String.ofList chars) (done ++ tokens) := by
  induction h generalizing before done with
  | nil hgap =>
    rw [List.append_nil]
    exact hbefore.blank (by rwa [String.toList_ofList])
  | @cons token tokens gap word rest hgap hword _ ih =>
    rw [List.append_cons] at hchain
    have hnext :
        Complete (before ++ String.ofList (gap ++ word)) (done ++ [token]) := by
      refine hbefore.spell ?_ hgap hword
      rintro front literal rfl
      rw [List.append_assoc, List.append_assoc] at hchain
      exact (List.isChain_append_cons_cons.1 hchain).2.1 literal rfl
    have hall := ih hnext hchain
    rw [String.append_assoc, ← String.ofList_append, List.append_assoc,
      List.append_assoc] at hall
    exact hall

/-- A text is read as a document exactly if it is that document.  The rows of
documents have their numbers apart, which is what the scanner needs, and so
nothing is left of how it works. -/
theorem parse?_eq_some_iff {text : String} {document : Json} :
    parse? text = some document ↔ document.WrittenAs text := by
  rw [parse?, Option.bind_eq_some_iff]
  constructor
  · rintro ⟨tokens, hscan, htokens⟩
    obtain rfl := ofTokens?_eq_some_iff.1 htokens
    exact spells_of_scan hscan
  · intro h
    have hcomplete :=
      complete_of_spells h settled_empty.complete (isChain_tokens document)
    refine ⟨document.tokens, ?_, ofTokens?_tokens document⟩
    simpa using scan_of_complete hcomplete

end StackMachine.Json
