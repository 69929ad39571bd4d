import StackMachine.Instruction.Basic
import StackMachine.Program.Basic

/-!
# Assembling a program

An assembler is a program in the making: code is added at its end, and a new
segment may be begun at any address.

## Main definitions

* `Assembler`, `Assembler.start`
* `Assembler.org` — begin a new segment
* `Assembler.here` — the address at which the next byte will stand
* `Assembler.byte`, `Assembler.bytes`, `Assembler.word`, `Assembler.emit` — add
  code
* `Assembler.build` — the program so far

## Design notes

Segments that received no code are not part of the program, so an `org` that is
followed by another leaves no trace.  Code is added to an array in place; what
the segment holds is then the array as a list, and `here` follows its length
modulo the size of the address space.
-/

namespace StackMachine

/-- A program in the making. -/
structure Assembler where
  /-- The segments that are complete, the latest first. -/
  finished : List Segment
  /-- The segment to which code is added. -/
  current : Segment
deriving DecidableEq, Repr

namespace Assembler

/-- No code yet; the first byte will stand at address zero. -/
def start : Assembler := ⟨[], ⟨0, #[]⟩⟩

/-- Begin a new segment at an address. -/
def org (asm : Assembler) (origin : UInt16) : Assembler :=
  ⟨asm.current :: asm.finished, ⟨origin, #[]⟩⟩

/-- The address at which the next byte will stand. -/
def here (asm : Assembler) : UInt16 :=
  asm.current.origin + UInt16.ofNat asm.current.bytes.size

/-- Add one byte. -/
def byte : Assembler → UInt8 → Assembler
  | ⟨finished, ⟨origin, code⟩⟩, value => ⟨finished, ⟨origin, code.push value⟩⟩

/-- Add bytes, one after another. -/
def bytes (asm : Assembler) (values : List UInt8) : Assembler :=
  values.foldl byte asm

/-- Add a word, its high byte first. -/
def word (asm : Assembler) (value : UInt16) : Assembler :=
  asm.bytes (Word.toBytes value)

/-- Add an instruction. -/
def emit (asm : Assembler) (i : Instruction) : Assembler := asm.bytes i.encode

/-- Add instructions, one after another. -/
def emitAll (asm : Assembler) (instructions : List Instruction) : Assembler :=
  instructions.foldl emit asm

/-- Every segment begun so far, in the order in which they were begun. -/
def segments (asm : Assembler) : List Segment :=
  asm.finished.reverse ++ [asm.current]

/-- The program so far: the segments that received code. -/
def build (asm : Assembler) : Program :=
  ⟨asm.segments.filter fun segment => !segment.bytes.isEmpty⟩

/-- Bytes that are emitted go behind those of the segment at hand. -/
theorem current_bytes (asm : Assembler) (values : List UInt8) :
    (asm.bytes values).finished = asm.finished ∧
      (asm.bytes values).current.origin = asm.current.origin ∧
        (asm.bytes values).current.bytes.toList =
          asm.current.bytes.toList ++ values := by
  induction values generalizing asm with
  | nil => simp [bytes]
  | cons value values ih =>
    obtain ⟨h₁, h₂, h₃⟩ := ih (asm.byte value)
    exact ⟨h₁, h₂, by rw [bytes, List.foldl_cons, ← bytes, h₃]; simp [byte]⟩

end Assembler

end StackMachine
