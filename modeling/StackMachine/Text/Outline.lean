import StackMachine.Text.Quoted

/-!
# Values shown by their parts

A value is shown to a person by its parts: a record by its fields, a table by
its entries.  An outline is written either in one line or spread over several,
one part on each.

## Main definitions

* `Outline` — a leaf, a record of named fields or a table of quoted keys
* `Outline.inline` — the outline in one line
* `Outline.spread` — the outline with each part on a line of its own, four
  blanks deeper than what it belongs to and followed by a comma
-/

namespace StackMachine

/-- What is shown of a value. -/
inductive Outline where
  /-- A text that is shown as it stands. -/
  | leaf (text : String)
  /-- A record: its name and its fields. -/
  | record (name : String) (fields : List (String × Outline))
  /-- A table: keys, which are quoted, and what they lead to. -/
  | table (entries : List (String × Outline))

namespace Outline

/-- Blanks in front of a line at a depth. -/
def indent (depth : Nat) : String := String.ofList (List.replicate (4 * depth) ' ')

mutual

/-- The outline in one line. -/
def inline : Outline → String
  | leaf text => text
  | record name [] => name
  | record name (field :: rest) =>
    name ++ " \x7b " ++ field.1 ++ ": " ++ field.2.inline ++
      inlineFields rest ++ " \x7d"
  | table [] => "\x7b\x7d"
  | table (entry :: rest) =>
    "\x7b" ++ Quoted.quote entry.1 ++ ": " ++ entry.2.inline ++
      inlineEntries rest ++ "\x7d"

/-- The fields after the first one, each behind a comma. -/
def inlineFields : List (String × Outline) → String
  | [] => ""
  | (name, value) :: rest =>
    ", " ++ name ++ ": " ++ value.inline ++ inlineFields rest

/-- The entries after the first one, each behind a comma. -/
def inlineEntries : List (String × Outline) → String
  | [] => ""
  | (key, value) :: rest =>
    ", " ++ Quoted.quote key ++ ": " ++ value.inline ++ inlineEntries rest

end

mutual

/-- The outline spread over lines, at a depth of indentation. -/
def spreadAt (depth : Nat) : Outline → String
  | leaf text => text
  | record name [] => name
  | record name (field :: rest) =>
    name ++ " \x7b\n" ++ spreadFields (depth + 1) (field :: rest) ++
      indent depth ++ "\x7d"
  | table [] => "\x7b\x7d"
  | table (entry :: rest) =>
    "\x7b\n" ++ spreadEntries (depth + 1) (entry :: rest) ++ indent depth ++ "\x7d"

/-- One line, or as many as its value needs, for each field. -/
def spreadFields (depth : Nat) : List (String × Outline) → String
  | [] => ""
  | (name, value) :: rest =>
    indent depth ++ name ++ ": " ++ value.spreadAt depth ++ ",\n" ++
      spreadFields depth rest

/-- One line, or as many as its value needs, for each entry. -/
def spreadEntries (depth : Nat) : List (String × Outline) → String
  | [] => ""
  | (key, value) :: rest =>
    indent depth ++ Quoted.quote key ++ ": " ++ value.spreadAt depth ++ ",\n" ++
      spreadEntries depth rest

end

/-- The outline spread over lines. -/
def spread (outline : Outline) : String := outline.spreadAt 0

end Outline

end StackMachine
