import StackMachine.Json.Grammar

/-!
# The tokens of a document

Every document has one row of tokens by which it is written, and the grammar
reads that row as the document.  This holds of all documents: a literal is one
token, whatever its characters.

## Main definitions

* `Json.tokens`, `Json.itemTokens`, `Json.memberTokens` — a document and its
  parts as tokens

## Main statements

* `Json.run_tokens` — the tokens of a document are read where a value is
  expected
* `Json.ofTokens?_tokens` — the tokens of a document make that document
-/

namespace StackMachine.Json

mutual

/-- The tokens of a document. -/
def tokens : Json → List Token
  | null => [.null]
  | bool value => [.bool value]
  | number literal => [.number literal]
  | text literal => [.text literal]
  | array [] => [.openArray, .closeArray]
  | array (item :: items) =>
    .openArray :: (item.tokens ++ itemTokens items ++ [.closeArray])
  | object [] => [.openObject, .closeObject]
  | object ((key, value) :: members) =>
    .openObject :: .text key :: .colon ::
      (value.tokens ++ memberTokens members ++ [.closeObject])

/-- The tokens of items behind others. -/
def itemTokens : List Json → List Token
  | [] => []
  | item :: items => .comma :: (item.tokens ++ itemTokens items)

/-- The tokens of members behind others. -/
def memberTokens : List (List Char × Json) → List Token
  | [] => []
  | (key, value) :: members =>
    .comma :: .text key :: .colon :: (value.tokens ++ memberTokens members)

end

namespace Reader

variable {reader next : Reader} {token : Token} {outer : List Frame}

theorem run_cons (h : reader.step token = some next) (rest : List Token) :
    reader.run (token :: rest) = next.run rest := by
  rw [run, h]

/-- A reader reads tokens in two parts, and fails if it fails on the first. -/
theorem run_append (reader : Reader) (front rest : List Token) :
    reader.run (front ++ rest) = (reader.run front).bind (·.run rest) := by
  induction front generalizing reader with
  | nil => rfl
  | cons token front ih =>
    rw [List.cons_append, run, run]
    cases reader.step token with
    | none => rfl
    | some next => exact ih next

/-- Behind an opening bracket a token that does not close it starts the first
item.  The bracket of an empty array is the only other case. -/
theorem step_firstItem (htoken : token ≠ .closeArray) :
    (firstItem outer).step token = start (.array [] :: outer) token := by
  cases token <;> first | rfl | exact absurd rfl htoken

/-- Behind an opening bracket the tokens of a document are its first item.  No
document begins with a closing bracket. -/
theorem run_firstItem (outer : List Frame) (document : Json) :
    (firstItem outer).run document.tokens =
      (value (.array [] :: outer)).run document.tokens := by
  have hfirst : ∀ (token : Token) (rest : List Token), token ≠ .closeArray →
      (firstItem outer).run (token :: rest) =
        (value (.array [] :: outer)).run (token :: rest) := by
    intro token rest htoken
    rw [run, run, step_firstItem htoken]
    rfl
  cases document with
  | array items => cases items <;> exact hfirst _ _ (by simp)
  | object members => cases members <;> exact hfirst _ _ (by simp)
  | null | bool | number | text => exact hfirst _ _ (by simp)

end Reader

open Reader (run_cons run_append run_firstItem)

mutual

/-- Where a value is expected, the tokens of a document are read as that
document, whatever frames are open around it.  The induction goes with those on
items and members. -/
theorem run_tokens : ∀ (document : Json) (outer : List Frame),
    (Reader.value outer).run document.tokens = some (.after document outer)
  | null, _ | bool _, _ | number _, _ | text _, _ => rfl
  | array [], _ | object [], _ => rfl
  | array (item :: items), outer => by
    have hopen :
        (Reader.value outer).step .openArray = some (.firstItem outer) := rfl
    rw [tokens, run_cons hopen, List.append_assoc, run_append, run_firstItem,
      run_tokens item]
    exact run_itemTokens items item [] outer
  | object ((key, value) :: members), outer => by
    have hopen :
        (Reader.value outer).step .openObject = some (.firstKey outer) := rfl
    have hkey :
        (Reader.firstKey outer).step (.text key) = some (.colon [] key outer) := rfl
    have hcolon : (Reader.colon [] key outer).step .colon =
        some (.value (.object [] key :: outer)) := rfl
    rw [tokens, run_cons hopen, run_cons hkey, run_cons hcolon,
      List.append_assoc, run_append, run_tokens value]
    exact run_memberTokens members key value [] outer

/-- Items behind others are read up to the closing bracket. -/
theorem run_itemTokens : ∀ (items : List Json) (item : Json) (done : List Json)
    (outer : List Frame),
    (Reader.after item (.array done :: outer)).run
      (itemTokens items ++ [.closeArray]) =
      some (.after (.array (done.reverse ++ item :: items)) outer)
  | [], item, done, outer => by
    show some (Reader.after (.array (item :: done).reverse) outer) = _
    rw [List.reverse_cons]
  | next :: items, item, done, outer => by
    have hcomma : (Reader.after item (.array done :: outer)).step .comma =
        some (.value (.array (item :: done) :: outer)) := rfl
    rw [itemTokens, List.cons_append, run_cons hcomma, List.append_assoc,
      run_append, run_tokens next]
    refine (run_itemTokens items next (item :: done) outer).trans ?_
    rw [List.reverse_cons, List.append_assoc]
    rfl

/-- Members behind others are read up to the closing brace. -/
theorem run_memberTokens :
    ∀ (members : List (List Char × Json)) (key : List Char) (value : Json)
    (done : List (List Char × Json)) (outer : List Frame),
    (Reader.after value (.object done key :: outer)).run
      (memberTokens members ++ [.closeObject]) =
      some (.after (.object (done.reverse ++ (key, value) :: members)) outer)
  | [], key, value, done, outer => by
    show some (Reader.after (.object ((key, value) :: done).reverse) outer) = _
    rw [List.reverse_cons]
  | (nextKey, nextValue) :: members, key, value, done, outer => by
    have hcomma : (Reader.after value (.object done key :: outer)).step .comma =
        some (.key ((key, value) :: done) outer) := rfl
    have hkey : (Reader.key ((key, value) :: done) outer).step (.text nextKey) =
        some (.colon ((key, value) :: done) nextKey outer) := rfl
    have hcolon : (Reader.colon ((key, value) :: done) nextKey outer).step .colon =
        some (.value (.object ((key, value) :: done) nextKey :: outer)) := rfl
    rw [memberTokens, List.cons_append, List.cons_append, List.cons_append,
      run_cons hcomma, run_cons hkey, run_cons hcolon, List.append_assoc,
      run_append, run_tokens nextValue]
    refine (run_memberTokens members nextKey nextValue
      ((key, value) :: done) outer).trans ?_
    rw [List.reverse_cons, List.append_assoc]
    rfl

end

/-- The tokens of a document by themselves are read as the document. -/
theorem ofTokens?_tokens (document : Json) :
    ofTokens? document.tokens = some document := by
  rw [ofTokens?, run_tokens]
  rfl

end StackMachine.Json
