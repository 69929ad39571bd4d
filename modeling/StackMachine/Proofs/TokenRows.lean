import Mathlib.Data.List.Chain
import StackMachine.Proofs.DocumentTokens

/-!
# Rows of tokens

The grammar makes a document of a row of tokens only if it is the row by which
that document is written.  Together with the converse this says that a row of
tokens and a document determine each other.

## Main definitions

* `Json.leadingItems`, `Json.leadingMembers` — items and members with a comma
  behind each
* `Json.Frame.consumed`, `Json.Reader.consumed` — the tokens that have led to a
  state
* `Json.Token.Apart` — tokens that are told from each other even if nothing
  stands between them

## Main statements

* `Json.Reader.consumed_of_step` — a token that is taken is added to those that
  have been
* `Json.ofTokens?_eq_some_iff` — a row makes a document exactly if it is the row
  of that document
* `Json.isChain_tokens` — behind a number stands nothing, a comma or a closing
  bracket

## Design notes

**A state knows its past.**  The brackets that are open keep all that has been
read inside them, so the tokens that have led to a state can be read off it.  It
remains to look at what one token does.
-/

namespace StackMachine.Json

/-! ### Items in front of others -/

/-- Items with a comma behind each. -/
def leadingItems (items : List Json) : List Token :=
  items.flatMap fun item => item.tokens ++ [.comma]

/-- Members with a comma behind each. -/
def leadingMembers (members : List (List Char × Json)) : List Token :=
  members.flatMap fun member =>
    .text member.1 :: .colon :: (member.2.tokens ++ [.comma])

/-- The items of an array with the last one set apart.  The reader has a comma
behind each of the others when it comes to the last. -/
theorem tokens_itemTokens (item : Json) (items : List Json) (last : Json) :
    item.tokens ++ itemTokens (items ++ [last]) =
      leadingItems (item :: items) ++ last.tokens := by
  induction items generalizing item with
  | nil => simp [itemTokens, leadingItems]
  | cons next items ih => simpa [itemTokens, leadingItems] using ih next

theorem tokens_array_concat (items : List Json) (last : Json) :
    (array (items ++ [last])).tokens =
      .openArray :: (leadingItems items ++ last.tokens ++ [.closeArray]) := by
  cases items with
  | nil => simp [tokens, itemTokens, leadingItems]
  | cons item items => rw [List.cons_append, tokens, tokens_itemTokens]

theorem tokens_memberTokens (key : List Char) (value : Json)
    (members : List (List Char × Json)) (last : List Char × Json) :
    .text key :: .colon :: (value.tokens ++ memberTokens (members ++ [last])) =
      leadingMembers ((key, value) :: members) ++
        .text last.1 :: .colon :: last.2.tokens := by
  induction members generalizing key value with
  | nil => simp [memberTokens, leadingMembers]
  | cons next members ih =>
    simpa [memberTokens, leadingMembers] using ih next.1 next.2

theorem tokens_object_concat (members : List (List Char × Json))
    (last : List Char × Json) :
    (object (members ++ [last])).tokens =
      .openObject ::
        (leadingMembers members ++ .text last.1 :: .colon :: last.2.tokens ++
          [.closeObject]) := by
  cases members with
  | nil => simp [tokens, memberTokens, leadingMembers]
  | cons member members =>
    rw [List.cons_append, tokens, ← tokens_memberTokens]
    simp

/-! ### The past of a state -/

/-- The tokens inside an open bracket or brace, itself included. -/
def Frame.consumed : Frame → List Token
  | array items => .openArray :: leadingItems items.reverse
  | object members key =>
    .openObject :: (leadingMembers members.reverse ++ [.text key, .colon])

/-- The tokens inside all that is open, innermost first. -/
def opened : List Frame → List Token
  | [] => []
  | frame :: outer => opened outer ++ frame.consumed

namespace Reader

/-- The tokens that have led to a state. -/
def consumed : Reader → List Token
  | value outer => opened outer
  | firstItem outer => opened outer ++ [.openArray]
  | firstKey outer => opened outer ++ [.openObject]
  | key members outer =>
    opened outer ++ .openObject :: leadingMembers members.reverse
  | colon members name outer =>
    opened outer ++ .openObject :: (leadingMembers members.reverse ++ [.text name])
  | after document outer => opened outer ++ document.tokens

variable {reader next last : Reader} {token other : Token} {tokens : List Token}
  {outer : List Frame}

/-- A token where a value may start is the first of that value, behind what
is open around it. -/
theorem consumed_of_start (h : start outer token = some next) :
    next.consumed = opened outer ++ [token] := by
  cases token <;> cases h <;> rfl

/-- A token that is taken is added to those that have been.  So the state of the
reader tells the whole row that led to it. -/
theorem consumed_of_step (h : reader.step token = some next) :
    next.consumed = reader.consumed ++ [token] := by
  cases reader with
  | value outer => exact consumed_of_start h
  | firstItem outer =>
    by_cases htoken : token = .closeArray
    · subst htoken
      cases h
      simp [consumed, Json.tokens]
    · rw [step_firstItem htoken] at h
      rw [consumed_of_start h]
      simp [consumed, opened, Frame.consumed, leadingItems]
  | firstKey outer =>
    cases token <;> cases h <;> simp [consumed, leadingMembers, Json.tokens]
  | key members outer =>
    cases token <;> cases h
    simp [consumed]
  | colon members name outer =>
    cases token <;> cases h
    simp [consumed, opened, Frame.consumed]
  | after item outer =>
    rcases outer with _ | ⟨frame, outer⟩
    · cases h
    · cases frame with
      | array items =>
        cases token <;> cases h
        · simp [consumed, opened, Frame.consumed, tokens_array_concat]
        · simp [consumed, opened, Frame.consumed, leadingItems]
      | object members name =>
        cases token <;> cases h
        · simp [consumed, opened, Frame.consumed, tokens_object_concat]
        · simp [consumed, opened, Frame.consumed, leadingMembers]

/-- A row of tokens that is taken is behind those that have been. -/
theorem consumed_of_run (h : reader.run tokens = some next) :
    next.consumed = reader.consumed ++ tokens := by
  induction tokens generalizing reader with
  | nil =>
    cases h
    exact (List.append_nil _).symm
  | cons token rest ih =>
    rw [run] at h
    split at h
    · next middle hstep =>
      rw [ih h, consumed_of_step hstep, List.append_assoc]
      rfl
    · cases h

end Reader

/-- A row of tokens makes a document exactly if it is the row of that document.
Two documents therefore never have the same row. -/
theorem ofTokens?_eq_some_iff {tokens : List Token} {document : Json} :
    ofTokens? tokens = some document ↔ tokens = document.tokens := by
  constructor
  · intro h
    obtain ⟨last, hrun, hfinish⟩ := Option.bind_eq_some_iff.1 h
    have hlast : last = .after document [] := by
      rcases last with _ | _ | _ | _ | _ | ⟨value, _ | _⟩ <;> cases hfinish
      rfl
    subst hlast
    exact (Reader.consumed_of_run hrun).symm
  · rintro rfl
    exact ofTokens?_tokens document

/-! ### What follows a number -/

/-- The second token is told from the first even if nothing stands between them:
behind a number there is a comma or a closing bracket. -/
def Token.Apart (first second : Token) : Prop :=
  ∀ literal, first = .number literal → second ∈ [comma, closeArray, closeObject]

namespace Reader

variable {reader next last : Reader} {token other : Token} {tokens : List Token}

/-- A number is a whole value, wherever it may stand. -/
theorem step_number {literal : List Char}
    (h : reader.step (.number literal) = some next) :
    ∃ outer, next = after (.number literal) outer := by
  cases reader with
  | value outer | firstItem outer =>
    cases h
    exact ⟨_, rfl⟩
  | after item outer => rcases outer with _ | ⟨_ | _, outer⟩ <;> cases h
  | firstKey | key | colon => cases h

/-- What may follow a number is a comma or a closing bracket, or nothing. -/
theorem apart_of_step (h : reader.step token = some next)
    (hnext : next.step other = some last) :
    token.Apart other := by
  rintro literal rfl
  obtain ⟨outer, rfl⟩ := step_number h
  rcases outer with _ | ⟨_ | _, outer⟩ <;> cases other <;> cases hnext <;> decide

/-- Each token of a row that is taken stands apart from the one behind it. -/
theorem isChain_of_run (h : reader.run tokens = some last) :
    tokens.IsChain Token.Apart := by
  induction tokens generalizing reader with
  | nil => exact .nil
  | cons token rest ih =>
    rw [run] at h
    split at h
    · next middle hstep =>
      cases rest with
      | nil => exact .singleton token
      | cons other rest =>
        refine .cons_cons ?_ (ih h)
        rw [run] at h
        split at h
        · next after hother => exact apart_of_step hstep hother
        · cases h
    · cases h

end Reader

/-- In the row of a document every number stands apart from what
follows it.  A number is read back as it was written for this reason,
without a blank behind it. -/
theorem isChain_tokens (document : Json) : document.tokens.IsChain Token.Apart :=
  Reader.isChain_of_run (run_tokens document [])

end StackMachine.Json
