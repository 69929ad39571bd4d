import StackMachine.Machine.Basic
import StackMachine.Text.Numeral

/-!
# Presets

A preset is a text such as `r1=0x10`: the name of a register, an equals sign and
a word.

## Main definitions

* `CommandLine.PresetError` — why a text is no preset
* `CommandLine.readPreset` — the register and the word of a preset
* `CommandLine.applyPresets` — put the words into the registers, one preset
  after another

## Design notes

The text is divided at its first equals sign.  The word is looked at before the
name, so of two bad halves the word is reported.
-/

namespace StackMachine.CommandLine

/-- Why a text is no preset. -/
inductive PresetError where
  /-- There is no equals sign. -/
  | notAssignment (text : String)
  /-- What stands behind it is no word. -/
  | value (fault : Numeral.WordFault)
  /-- What stands in front of it names no register. -/
  | register (cause : UnknownRegister)
deriving DecidableEq, Repr

/-- The wording of a bad preset. -/
def PresetError.message : PresetError → String
  | notAssignment text => "expected NAME=VALUE, got " ++ Quoted.quote text
  | value fault => fault.message
  | register cause => cause.message

/-- The two sides of the first equals sign of a text, if it has one. -/
def splitAssignment (text : String) : Option (String × String) :=
  match text.toList.dropWhile (· ≠ '=') with
  | [] => none
  | _ :: value =>
    some (String.ofList (text.toList.takeWhile (· ≠ '=')), String.ofList value)

/-- The register and the word of a preset. -/
def readPreset (text : String) : Except PresetError (Register × UInt16) :=
  match splitAssignment text with
  | none => .error (.notAssignment text)
  | some (name, value) =>
    match Numeral.readWord value with
    | .error fault => .error (.value fault)
    | .ok word =>
      match Register.parse name with
      | .error cause => .error (.register cause)
      | .ok r => .ok (r, word)

/-- Put the words of presets into their registers, one preset after another, up
to the first that is none. -/
def applyPresets (presets : List String) : Action PresetError Unit :=
  presets.forM fun text => do
    match readPreset text with
    | .error e => throw e
    | .ok (r, word) => modify (·.setRegister r word)

end StackMachine.CommandLine
