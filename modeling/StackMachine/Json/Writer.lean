import StackMachine.Json.Basic

/-!
# Writing JSON

## Main definitions

* `Json.Spacing` — what stands between tokens
* `Json.compact` — a document without any blanks
* `Json.pretty` — a document with each item and member on a line of its own, two
  blanks deeper than what it belongs to

## Design notes

**Text is added at the end of what has been written,** item after item, so a
long array takes no stack.
-/

namespace StackMachine.Json

/-- What stands between tokens. -/
structure Spacing where
  /-- What stands in front of an item, a member or a closing bracket at a depth. -/
  newline : Nat → String
  /-- What stands behind a key. -/
  colon : String

namespace Spacing

/-- No blanks at all. -/
def none : Spacing := ⟨fun _ => "", ":"⟩

/-- A line for each part. -/
def lines : Spacing :=
  ⟨fun depth => "\n" ++ String.ofList (List.replicate (2 * depth) ' '), ": "⟩

end Spacing

/-- A literal between quotes. -/
def between (literal : List Char) : String := "\"" ++ String.ofList literal ++ "\""

mutual

/-- A document behind what has been written, at a depth. -/
def writeOnto (spacing : Spacing) (depth : Nat) (before : String) : Json → String
  | null => before ++ "null"
  | bool true => before ++ "true"
  | bool false => before ++ "false"
  | number literal => before ++ String.ofList literal
  | text literal => before ++ between literal
  | array [] => before ++ "[]"
  | array (item :: items) =>
    writeItems spacing (depth + 1)
        (item.writeOnto spacing (depth + 1)
          (before ++ "[" ++ spacing.newline (depth + 1))) items ++
      spacing.newline depth ++ "]"
  | object [] => before ++ "\x7b\x7d"
  | object ((key, value) :: members) =>
    writeMembers spacing (depth + 1)
        (value.writeOnto spacing (depth + 1)
          (before ++ "\x7b" ++ spacing.newline (depth + 1) ++ between key ++
            spacing.colon))
        members ++
      spacing.newline depth ++ "\x7d"

/-- Items behind what has been written, each behind a comma. -/
def writeItems (spacing : Spacing) (depth : Nat) (before : String) :
    List Json → String
  | [] => before
  | item :: items =>
    writeItems spacing depth
      (item.writeOnto spacing depth (before ++ "," ++ spacing.newline depth)) items

/-- Members behind what has been written, each behind a comma. -/
def writeMembers (spacing : Spacing) (depth : Nat) (before : String) :
    List (List Char × Json) → String
  | [] => before
  | (key, value) :: members =>
    writeMembers spacing depth
      (value.writeOnto spacing depth
        (before ++ "," ++ spacing.newline depth ++ between key ++
          spacing.colon)) members

end

/-- A document without any blanks. -/
def compact (document : Json) : String := document.writeOnto .none 0 ""

/-- A document with each part on a line of its own. -/
def pretty (document : Json) : String := document.writeOnto .lines 0 ""

end StackMachine.Json
