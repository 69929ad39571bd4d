/-!
# The tokens of JSON

A document is written as a sequence of tokens with blanks between them.
Characters are read one at a time, and what has been read of the token under way
is a state.

## Main definitions

* `Json.Token` — a token, literals as they are written
* `Json.NumberPart` — how far a number has been read
* `Json.Scanner`, `Json.Scanner.step` — what one character does
* `Json.scan` — the tokens of a text

## Design notes

**One character, one step.**  A number ends only at a character that does not
belong to it, which then starts the next token in the same step; so a step
yields up to two tokens.  Two tokens that touch are told apart here and refused,
where they may not follow each other, by the grammar.
-/

namespace StackMachine.Json

/-- A token of JSON. -/
inductive Token where
  | openArray
  | closeArray
  | openObject
  | closeObject
  | comma
  | colon
  | null
  | bool (value : Bool)
  /-- A number, as it is written. -/
  | number (literal : List Char)
  /-- A text, as it is written between its quotes. -/
  | text (literal : List Char)
deriving DecidableEq, Repr

/-- How far a number has been read. -/
inductive NumberPart where
  /-- Its minus sign. -/
  | sign
  /-- A zero, behind which no digit may stand. -/
  | zero
  /-- Digits of the whole part. -/
  | whole
  /-- The point. -/
  | point
  /-- Digits behind the point. -/
  | fraction
  /-- The letter in front of the exponent. -/
  | mark
  /-- The sign of the exponent. -/
  | exponentSign
  /-- Digits of the exponent. -/
  | exponent
deriving DecidableEq, Repr

namespace NumberPart

/-- Whether a number may end here. -/
def isComplete : NumberPart → Bool
  | zero | whole | fraction | exponent => true
  | sign | point | mark | exponentSign => false

/-- The part that a character starts or goes on with, if it belongs to the
number. -/
def next? (part : NumberPart) (c : Char) : Option NumberPart :=
  if c.isDigit then
    match part with
    | sign => if c = '0' then some zero else some whole
    | zero => none
    | whole => some whole
    | point | fraction => some fraction
    | mark | exponentSign | exponent => some exponent
  else if c = '.' then
    match part with
    | zero | whole => some point
    | _ => none
  else if c = 'e' ∨ c = 'E' then
    match part with
    | zero | whole | fraction => some mark
    | _ => none
  else if c = '+' ∨ c = '-' then
    match part with
    | mark => some exponentSign
    | _ => none
  else none

end NumberPart

/-- Whether a character is a digit in base sixteen. -/
def isHexDigit (c : Char) : Bool :=
  c.isDigit || ('a' ≤ c && c ≤ 'f') || ('A' ≤ c && c ≤ 'F')

/-- What has been read of the token under way; what has been read of a literal
stands with the newest character first. -/
inductive Scanner where
  /-- No token is under way. -/
  | between
  /-- A name, of which these characters are still to come. -/
  | name (left : List Char) (token : Token)
  /-- A number. -/
  | number (part : NumberPart) (read : List Char)
  /-- A text. -/
  | text (read : List Char)
  /-- A text, behind a backslash. -/
  | escape (read : List Char)
  /-- A text, in a numeric escape of which so many digits are still to come. -/
  | code (left : Nat) (read : List Char)
deriving DecidableEq, Repr

namespace Scanner

/-- What a character does between tokens: the state behind it and the token
that it completes. -/
def start (c : Char) : Option (Scanner × List Token) :=
  if c = ' ' ∨ c = '\n' ∨ c = '\r' ∨ c = '\t' then some (between, [])
  else if c = '[' then some (between, [.openArray])
  else if c = ']' then some (between, [.closeArray])
  else if c = '\x7b' then some (between, [.openObject])
  else if c = '\x7d' then some (between, [.closeObject])
  else if c = ',' then some (between, [.comma])
  else if c = ':' then some (between, [.colon])
  else if c = '"' then some (text [], [])
  else if c = '-' then some (number .sign [c], [])
  else if c = '0' then some (number .zero [c], [])
  else if c.isDigit then some (number .whole [c], [])
  else if c = 'n' then some (name ['u', 'l', 'l'] .null, [])
  else if c = 't' then some (name ['r', 'u', 'e'] (.bool true), [])
  else if c = 'f' then some (name ['a', 'l', 's', 'e'] (.bool false), [])
  else none

/-- What a character does: the state behind it and the tokens that it completes. -/
def step : Scanner → Char → Option (Scanner × List Token)
  | between, c => start c
  | name [] _, _ => none
  | name [last] token, c => if c = last then some (between, [token]) else none
  | name (first :: left) token, c =>
    if c = first then some (name left token, []) else none
  | number part read, c =>
    match part.next? c with
    | some part => some (number part (c :: read), [])
    | none =>
      if part.isComplete then
        (start c).map fun (after, tokens) => (after, .number read.reverse :: tokens)
      else none
  | text read, c =>
    if c = '"' then some (between, [.text read.reverse])
    else if c = '\\' then some (escape (c :: read), [])
    else if c.toNat < 0x20 then none
    else some (text (c :: read), [])
  | escape read, c =>
    if c = 'u' then some (code 4 (c :: read), [])
    else if c ∈ ['"', '\\', '/', 'b', 'f', 'n', 'r', 't'] then
      some (text (c :: read), [])
    else none
  | code 0 _, _ => none
  | code 1 read, c => if isHexDigit c then some (text (c :: read), []) else none
  | code (left + 1) read, c =>
    if isHexDigit c then some (code left (c :: read), []) else none

/-- The token that the end of the text completes, if the text may end here. -/
def finish : Scanner → Option (List Token)
  | between => some []
  | number part read =>
    if part.isComplete then some [.number read.reverse] else none
  | _ => none

/-- The tokens of the rest of a text behind those already found, which stand
with the newest first. -/
def run : Scanner → (found : List Token) → List Char → Option (List Token)
  | state, found, [] => state.finish.map fun tokens => found.reverse ++ tokens
  | state, found, c :: rest =>
    match state.step c with
    | some (state, tokens) => run state (tokens.reverse ++ found) rest
    | none => none

end Scanner

/-- The tokens of a text, if it consists of tokens and blanks. -/
def scan (text : List Char) : Option (List Token) := Scanner.between.run [] text

end StackMachine.Json
