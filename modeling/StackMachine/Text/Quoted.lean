import StackMachine.Text.Hex
import StackMachine.Text.Invisible

/-!
# Quoted text

A message that repeats a text which it was given shows it between double quotes,
so that its ends and its unusual characters can be seen.

## Main definitions

* `Quoted.escape` — how one character is written
* `Quoted.quote` — a text between quotes

## Design notes

**What is escaped.**  The quote and the backslash take a backslash; NUL, tab,
line feed and carriage return have a letter each; any other character that does
not show on its own is written as its code point in base sixteen between braces.
All else stands for itself, the single quote included.
-/

namespace StackMachine.Quoted

/-- How a character is written between quotes. -/
def escape (c : Char) : List Char :=
  if c = '\x00' then ['\\', '0']
  else if c = '\t' then ['\\', 't']
  else if c = '\n' then ['\\', 'n']
  else if c = '\r' then ['\\', 'r']
  else if c = '"' then ['\\', '"']
  else if c = '\\' then ['\\', '\\']
  else if Invisible.isInvisible c then
    ['\\', 'u', '\x7b'] ++ Hex.digits c.toNat ++ ['\x7d']
  else [c]

/-- A text between double quotes. -/
def quote (text : String) : String :=
  String.ofList ('"' :: text.toList.flatMap escape ++ ['"'])

end StackMachine.Quoted
