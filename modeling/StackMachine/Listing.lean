import StackMachine.Instruction.Basic
import StackMachine.Memory

/-!
# Listings

A listing shows a stretch of bytes as instructions, one on each line.  It is
read from the front: a byte that starts no instruction, or one whose operands
the bytes no longer hold, is shown as data, and reading goes on behind it.

## Main definitions

* `Listing.Item` — an instruction or a byte of data
* `Listing.item?`, `Listing.first` — the item at the front of some bytes
* `Listing.atAddress` — the item at an address in memory
* `Listing.Line`, `Listing.lines` — the whole stretch, line by line
* `Listing.text` — the lines behind a heading

## Main statements

* `Listing.lines_nil`, `Listing.lines_cons` — no lines, or the first line
  followed by the lines of what it leaves

## Design notes

**Five bytes are enough.**  No instruction is longer, so the item at an address
is found from a window of five bytes and the rest of memory is never copied.

**Lines are gathered in an array.**  Reading goes on in a loop that appends, so
a long stretch takes no stack; `lines_cons` gives the equation that proofs go
by.
-/

namespace StackMachine.Listing

/-- What one line shows. -/
inductive Item where
  /-- An instruction. -/
  | instruction (i : Instruction)
  /-- A byte that starts no instruction. -/
  | data (byte : UInt8)
deriving DecidableEq, Repr

namespace Item

/-- How an item is written out. -/
def text : Item → String
  | instruction i => i.text
  | data byte => "db " ++ Hex.byte byte

/-- How many bytes an item takes. -/
def length : Item → Nat
  | instruction i => i.opcode.length
  | data _ => 1

/-- Every item takes at least one byte, which is why a listing comes to an end. -/
theorem length_pos (item : Item) : 0 < item.length := by
  cases item with
  | instruction i => exact i.opcode.length_pos
  | data => exact Nat.one_pos

end Item

/-- The item at the front of some bytes, if there are any. -/
def item? : List UInt8 → Option Item
  | [] => none
  | byte :: rest =>
    match Instruction.decode? (byte :: rest) with
    | some (i, _) => some (.instruction i)
    | none => some (.data byte)

/-- The text and the length of the item at the front of some bytes; of no
bytes, an empty text. -/
def first (bytes : List UInt8) : String × Nat :=
  match item? bytes with
  | some item => (item.text, item.length)
  | none => ("", 0)

/-- The text and the length of the item at an address in memory. -/
def atAddress (m : Memory) (address : UInt16) : Except OutOfBounds (String × Nat) :=
  if m.size < address.toNat then .error ⟨address.toNat, 0, m.size⟩
  else if m.size = address.toNat then .error ⟨address.toNat, 1, m.size⟩
  else .ok (first (m.window address.toNat 5))

/-- A line: where it stands, what it says and the bytes that it shows. -/
structure Line where
  /-- The address of the first byte. -/
  address : UInt16
  /-- What the bytes are, written out. -/
  text : String
  /-- The bytes. -/
  raw : List UInt8
deriving DecidableEq, Repr

/-- A text filled up with blanks to twenty-four columns. -/
def column (text : String) : String := String.ofList (text.toList.rightpad 24 ' ')

/-- How a line is written. -/
def Line.render (line : Line) : String :=
  Hex.word line.address ++ ": " ++ column line.text ++ " ; " ++
    " ".intercalate (line.raw.map Hex.pair) ++ "\n"

/-- Where there is a byte there is an item: if nothing else, the byte as data. -/
theorem item?_cons (byte : UInt8) (rest : List UInt8) :
    ∃ item, item? (byte :: rest) = some item := by
  simp only [item?]
  split <;> exact ⟨_, rfl⟩

/-- The lines of some bytes behind those already gathered. -/
def gather (address : UInt16) :
    (bytes : List UInt8) → (done : Array Line) → Array Line
  | [], done => done
  | byte :: rest, done =>
    match item? (byte :: rest) with
    | none => done
    | some item =>
      gather (address + UInt16.ofNat item.length) ((byte :: rest).drop item.length)
        (done.push ⟨address, item.text, (byte :: rest).take item.length⟩)
  termination_by bytes => bytes.length
  decreasing_by
    have := item.length_pos
    simp only [List.length_drop, List.length_cons]
    omega

/-- The lines of some bytes of which the first is at an address. -/
def lines (address : UInt16) (bytes : List UInt8) : List Line :=
  (gather address bytes #[]).toList

/-- What stands above the lines. -/
def heading : String := "; vm16 disassembly\n; -----------------\n\n"

/-- The listing of some bytes of which the first is at an address. -/
def text (address : UInt16) (bytes : List UInt8) : String :=
  (lines address bytes).foldl (fun text line => text ++ line.render) heading

/-- The lines that were gathered before stay in front and play no further part. -/
theorem gather_append (address : UInt16) (bytes : List UInt8)
    (before done : Array Line) :
    gather address bytes (before ++ done) =
      before ++ gather address bytes done := by
  fun_induction gather address bytes done with
  | case1 => rw [gather]
  | case2 address byte rest done h => rw [gather, h]
  | case3 address byte rest done item h ih =>
    rw [gather, h]
    simp only
    rw [← Array.append_push, ih]

/-- What is gathered in an array is what a listing without one would be. -/
theorem toList_gather (address : UInt16) (bytes : List UInt8) (done : Array Line) :
    (gather address bytes done).toList = done.toList ++ lines address bytes := by
  have h := gather_append address bytes done #[]
  rw [Array.append_empty] at h
  rw [h, Array.toList_append, lines]

@[simp] theorem lines_nil (address : UInt16) : lines address [] = [] := by
  rw [lines, gather]

/-- The first line of a listing and what it leaves for the others.  Inductions
over listings use this equation in place of the definition. -/
theorem lines_cons {address : UInt16} {byte : UInt8} {rest : List UInt8}
    {item : Item} (h : item? (byte :: rest) = some item) :
    lines address (byte :: rest) =
      ⟨address, item.text, (byte :: rest).take item.length⟩ ::
        lines (address + UInt16.ofNat item.length)
          ((byte :: rest).drop item.length) := by
  rw [lines, gather, h]
  simp only
  rw [toList_gather]
  rfl

end StackMachine.Listing
