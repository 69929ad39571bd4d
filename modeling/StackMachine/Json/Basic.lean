/-!
# JSON documents

A document of the JSON format is a tree.  Its numbers and texts are kept as they
are written, so a document says nothing yet about the values that they denote.

## Main definitions

* `Json` — a document
* `Json.natural` — a document that is a natural number
* `Json.name` — a document that is a text without anything to escape

## Design notes

**Literals stay literals.**  Whether a text has any content at all depends on
its escapes, and a number may be too large or no integer.  What ignores a part
of a document need not care, and what uses it asks `Json.content?` or
`Json.natural?`.
-/

namespace StackMachine

/-- A document of the JSON format. -/
inductive Json where
  /-- The name `null`. -/
  | null
  /-- One of the names `true` and `false`. -/
  | bool (value : Bool)
  /-- A number, as it is written. -/
  | number (literal : List Char)
  /-- A text, as it is written between its quotes. -/
  | text (literal : List Char)
  /-- The items between brackets. -/
  | array (items : List Json)
  /-- The members between braces: keys as they are written between their
  quotes, and values. -/
  | object (members : List (List Char × Json))

namespace Json

/-- A natural number in base ten. -/
def natural (n : Nat) : Json := number (Nat.toDigits 10 n)

/-- A text in which no character has to be escaped. -/
def name (plain : String) : Json := text plain.toList

end Json

end StackMachine
