import StackMachine.Json.Grammar
import StackMachine.Json.Record
import StackMachine.Json.Writer
import StackMachine.Machine.View

/-!
# Values of the machine in JSON

Each value has one document into which it is encoded and may be decoded from
others, for the order of a record's members and the two forms of a record and of
a name do not matter.

## Main definitions

* `toJson` and `ofJson?` of `Register`, `Opcode`, `RunState`, `OpcodePolicy`,
  `Memory`, `Bank`, `Snapshot` and `Config`
* `Config.ofText`, `Config.toText` — configurations as text

## Design notes

**What a record leaves out.**  A configuration has a default for every field and
refuses members that it does not know.  The other records need all their fields
and ignore other members.

**A bank is encoded as the memory that it is,** and only a memory of its size is
decoded to one.
-/

namespace StackMachine

namespace Register

/-- A register by its name. -/
def toJson (r : Register) : Json := .name r.name

/-- The register that a document names. -/
def ofJson? (document : Json) : Option Register := document.name?.bind named?

end Register

namespace Opcode

/-- An opcode by its name. -/
def toJson (op : Opcode) : Json := .name op.name

/-- The opcode that a document names. -/
def ofJson? (document : Json) : Option Opcode := document.name?.bind named?

end Opcode

namespace RunState

/-- A state by its name. -/
def toJson (state : RunState) : Json := .name state.name

/-- The state that a document names. -/
def ofJson? (document : Json) : Option RunState :=
  document.name?.bind fun name => all.find? (·.name = name)

end RunState

namespace OpcodePolicy

/-- A policy by its name. -/
def toJson (policy : OpcodePolicy) : Json := .name policy.name

/-- The policy that a document names. -/
def ofJson? (document : Json) : Option OpcodePolicy :=
  document.name?.bind fun name => all.find? (·.name = name)

end OpcodePolicy

namespace Memory

/-- A memory by all its bytes. -/
def toJson (m : Memory) : Json :=
  .record [("bytes", .array (m.bytes.toList.map fun byte => .natural byte.toNat))]

/-- The memory that a document denotes. -/
def ofJson? (document : Json) : Option Memory := do
  let fields ← document.fields? ["bytes"] .ignored
  let items ← (← fields.lookup "bytes").items?
  let bytes ← items.mapM (Json.natural? 0xff)
  return ⟨(bytes.map UInt8.ofNat).toArray⟩

end Memory

namespace Bank

/-- A bank as the memory that it is. -/
def toJson (b : Bank) : Json := b.memory.toJson

/-- The bank that a document denotes. -/
def ofJson? (document : Json) : Option Bank := do
  let m ← Memory.ofJson? document
  if h : m.size = 24 then some ⟨m, h⟩ else none

end Bank

namespace Snapshot

/-- A register and its word as an array of two items. -/
def entryToJson (entry : Register × UInt16) : Json :=
  .array [entry.1.toJson, .natural entry.2.toNat]

/-- The register and the word that a document denotes. -/
def entryOfJson? : Json → Option (Register × UInt16)
  | .array [r, word] => do
    let r ← Register.ofJson? r
    let word ← word.natural? 0xffff
    return (r, UInt16.ofNat word)
  | _ => none

/-- A snapshot as a record. -/
def toJson (s : Snapshot) : Json :=
  .record
    [("state", s.state.toJson), ("cycles", .natural s.cycles.toNat),
      ("frame_bytes", .natural s.frameBytes.toNat),
      ("registers", .array (s.registers.map entryToJson))]

/-- The snapshot that a document denotes. -/
def ofJson? (document : Json) : Option Snapshot := do
  let fields ← document.fields?
    ["state", "cycles", "frame_bytes", "registers"] .ignored
  let state ← RunState.ofJson? (← fields.lookup "state")
  let cycles ← (← fields.lookup "cycles").natural? 0xffffffffffffffff
  let frameBytes ← (← fields.lookup "frame_bytes").natural? 0xffff
  let registers ← (← (← fields.lookup "registers").items?).mapM entryOfJson?
  return ⟨state, UInt64.ofNat cycles, UInt16.ofNat frameBytes, registers⟩

end Snapshot

namespace Config

/-- A configuration as a record. -/
def toJson (c : Config) : Json :=
  .record [("memory_size", .natural c.memorySize),
    ("opcode_policy", c.opcodePolicy.toJson)]

/-- The configuration that a document denotes; a field that it does not have is
that of the default configuration. -/
def ofJson? (document : Json) : Option Config := do
  let fields ← document.fields? ["memory_size", "opcode_policy"] .refused
  let memorySize ←
    match fields.lookup "memory_size" with
    | some size => size.natural? 0xffffffffffffffff
    | none => some default.memorySize
  let opcodePolicy ←
    match fields.lookup "opcode_policy" with
    | some policy => OpcodePolicy.ofJson? policy
    | none => some default.opcodePolicy
  return ⟨memorySize, opcodePolicy⟩

/-- The configuration that a text denotes, if a machine can be built by it. -/
def ofText (text : String) : Except ConfigError Config :=
  match (Json.parse? text).bind ofJson? with
  | none => .error .malformed
  | some c => c.validate.map fun _ => c

/-- A configuration as text, with each field on a line. -/
def toText (c : Config) : String := c.toJson.pretty

end Config

end StackMachine
