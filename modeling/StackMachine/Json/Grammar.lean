import StackMachine.Json.Basic
import StackMachine.Json.Token

/-!
# The grammar of JSON

Tokens make a document if brackets and braces match and commas and colons stand
where they should. Tokens are read one at a time; the brackets and braces that
are still open are kept in a list.

## Main definitions

* `Json.Frame` — an open bracket or brace with what has been read inside
* `Json.Reader`, `Json.Reader.step` — what is expected next, and what one token
  does
* `Json.ofTokens?` — the document that some tokens make
* `Json.parse?` — the document that a text is

## Design notes

**Nesting costs no stack.**  Reading is one loop over the tokens, so a document
may be nested to any depth.
-/

namespace StackMachine.Json

/-- An open bracket or brace and what has been read inside it, newest first. -/
inductive Frame where
  | array (items : List Json)
  /-- A brace; the value of a key is being read. -/
  | object (members : List (List Char × Json)) (key : List Char)

/-- What is expected next, inside the brackets and braces that are
open, innermost first. -/
inductive Reader where
  /-- A value. -/
  | value (outer : List Frame)
  /-- The first item of an array, or its end. -/
  | firstItem (outer : List Frame)
  /-- The first key of an object, or its end. -/
  | firstKey (outer : List Frame)
  /-- A key, behind a comma. -/
  | key (members : List (List Char × Json)) (outer : List Frame)
  /-- The colon behind a key. -/
  | colon (members : List (List Char × Json)) (key : List Char) (outer : List Frame)
  /-- What stands behind a value. -/
  | after (value : Json) (outer : List Frame)

namespace Reader

/-- What a token does where a value is expected. -/
def start (outer : List Frame) : Token → Option Reader
  | .null => some (after .null outer)
  | .bool flag => some (after (.bool flag) outer)
  | .number literal => some (after (.number literal) outer)
  | .text literal => some (after (.text literal) outer)
  | .openArray => some (firstItem outer)
  | .openObject => some (firstKey outer)
  | _ => none

/-- What a token does. -/
def step : Reader → Token → Option Reader
  | value outer, token => start outer token
  | firstItem outer, .closeArray => some (after (.array []) outer)
  | firstItem outer, token => start (.array [] :: outer) token
  | firstKey outer, .closeObject => some (after (.object []) outer)
  | firstKey outer, .text literal => some (colon [] literal outer)
  | key members outer, .text literal => some (colon members literal outer)
  | colon members name outer, .colon => some (value (.object members name :: outer))
  | after item (.array items :: outer), .comma =>
    some (value (.array (item :: items) :: outer))
  | after item (.array items :: outer), .closeArray =>
    some (after (.array (item :: items).reverse) outer)
  | after item (.object members name :: outer), .comma =>
    some (key ((name, item) :: members) outer)
  | after item (.object members name :: outer), .closeObject =>
    some (after (.object ((name, item) :: members).reverse) outer)
  | _, _ => none

/-- The document that has been read, if it is complete. -/
def finish : Reader → Option Json
  | after document [] => some document
  | _ => none

/-- Read tokens one after another. -/
def run : Reader → List Token → Option Reader
  | reader, [] => some reader
  | reader, token :: rest =>
    match reader.step token with
    | some reader => run reader rest
    | none => none

end Reader

/-- The document that some tokens make, all of them together. -/
def ofTokens? (tokens : List Token) : Option Json :=
  ((Reader.value []).run tokens).bind Reader.finish

/-- The document that a text is. -/
def parse? (text : String) : Option Json := (scan text.toList).bind ofTokens?

end StackMachine.Json
