import StackMachine.Json.Literal

/-!
# Records and names in JSON

A record is written as an object with a member for each field, in any order, or
as an array of its fields in the order of their declaration.  One of several
names is written as a text, or as an object with that one key and nothing behind
it.

## Main definitions

* `Json.Unknown` — what is done with a key that names no field
* `Json.fields?` — the values of a record's fields
* `Json.record` — a document that is a record
* `Json.name?` — the name that a document denotes

## Design notes

**Each field at most once.**  A key that names a field a second time makes the
document no record.  The key of a member that is ignored must still denote a
text.
-/

namespace StackMachine.Json

/-- What is done with a key that names no field. -/
inductive Unknown where
  /-- The document is no record. -/
  | refused
  /-- The member does not count. -/
  | ignored
deriving DecidableEq, Repr

/-- The values of fields given by name, together with those already found. -/
def collect (fields : List String) (unknown : Unknown) :
    List (List Char × Json) → (found : List (String × Json)) →
      Option (List (String × Json))
  | [], found => some found
  | (literal, value) :: rest, found =>
    match content? literal with
    | none => none
    | some key =>
      if key ∈ fields then
        if (found.lookup key).isSome then none
        else collect fields unknown rest ((key, value) :: found)
      else
        match unknown with
        | .refused => none
        | .ignored => collect fields unknown rest found

/-- The values of a record's fields, as far as a document has them. -/
def fields? (fields : List String) (unknown : Unknown) :
    Json → Option (List (String × Json))
  | object members => collect fields unknown members []
  | array items =>
    if items.length ≤ fields.length then some (fields.zip items) else none
  | _ => none

/-- A record with its fields in the order of their declaration. -/
def record (fields : List (String × Json)) : Json :=
  object (fields.map fun (key, value) => (key.toList, value))

/-- The name that a document denotes. -/
def name? : Json → Option String
  | text literal => content? literal
  | object [(literal, null)] => content? literal
  | _ => none

/-- The items of an array. -/
def items? : Json → Option (List Json)
  | array items => some items
  | _ => none

end StackMachine.Json
