/-!
# Programs

A program is machine code to be placed in memory, in one or more segments.

## Main definitions

* `Segment` — a run of bytes and the address of the first
* `Program`, `Program.ofBytes`, `Program.length`, `Program.isEmpty`
-/

namespace StackMachine

/-- A run of bytes to be placed at an address. -/
structure Segment where
  /-- The address of the first byte. -/
  origin : UInt16
  /-- The bytes. -/
  bytes : Array UInt8
deriving DecidableEq, Repr

/-- Machine code to be placed in memory, segment after segment. -/
structure Program where
  /-- The segments, in the order in which they are placed. -/
  segments : List Segment
deriving DecidableEq, Repr

namespace Program

/-- A program of one segment. -/
def ofBytes (origin : UInt16) (bytes : Array UInt8) : Program := ⟨[⟨origin, bytes⟩]⟩

/-- How many bytes there are in all segments together. -/
def length (p : Program) : Nat :=
  p.segments.foldr (fun segment total => segment.bytes.size + total) 0

/-- Whether there are no bytes. -/
def isEmpty (p : Program) : Bool := p.length == 0

end Program

end StackMachine
