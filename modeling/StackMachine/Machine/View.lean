import StackMachine.Machine.Basic

/-!
# Views of a machine

A person is shown a machine as text: stretches of memory, the stack, the
registers.

## Main definitions

* `View.bytes` — an address and the bytes from there on
* `Machine.viewMemory`, `Machine.viewStack`, `Machine.registerDump`,
  `Machine.outline`
* `Snapshot`, `Machine.snapshot` — the machine without its memory
-/

namespace StackMachine

namespace View

/-- An address and the bytes from there on, such as `0x0100: 0xbe 0x01`. -/
def bytes (address : UInt16) (values : List UInt8) : String :=
  values.foldl (fun text value => text ++ " " ++ Hex.byte value)
    (Hex.word address ++ ":")

end View

/-- A machine without its memory. -/
structure Snapshot where
  /-- Whether the machine goes on. -/
  state : RunState
  /-- How many steps have succeeded. -/
  cycles : UInt64
  /-- The frame count. -/
  frameBytes : UInt16
  /-- Registers with their words. -/
  registers : List (Register × UInt16)
deriving DecidableEq, Repr

namespace Machine

/-- The word of memory at an address. -/
def peekWord (m : Machine) (address : UInt16) : Except OutOfBounds UInt16 :=
  m.memory.readWord address.toNat

/-- An address and the eight bytes from there on. -/
def viewMemory (m : Machine) (address : UInt16) : Except OutOfBounds String := do
  return View.bytes address (← m.memory.slice address.toNat 8)

/-- The stack pointer and the bytes from there to the end of memory. -/
def viewStack (m : Machine) : Except OutOfBounds String :=
  let sp := m.sp.toNat
  if m.memory.size < sp then .error ⟨sp, 0, m.memory.size⟩
  else do return View.bytes m.sp (← m.memory.slice sp (m.memory.size - sp))

/-- A line for each register, with its name and its word. -/
def registerDump (m : Machine) : String :=
  "\n".intercalate (m.bank.entries.map fun entry =>
    entry.1.name ++ ": " ++ Hex.word entry.2)

/-- The machine without its memory. -/
def snapshot (m : Machine) : Snapshot :=
  ⟨m.state, m.cycles, m.frameBytes, m.bank.entries⟩

/-- The machine as it is shown by its parts. -/
def outline (m : Machine) : Outline :=
  .record "Cpu"
    [("state", .leaf m.state.name), ("cycles", .leaf (toString m.cycles.toNat)),
      ("frame_bytes", .leaf (toString m.frameBytes.toNat)),
      ("regs", m.bank.outline)]

end Machine

/-- A memory as it is shown by its parts: its bytes are only counted. -/
def Memory.outline (m : Memory) : Outline :=
  .record "Memory"
    [("non_zero_bytes", .leaf (toString m.nonZeroCount)),
      ("total_bytes", .leaf (toString m.size))]

end StackMachine
