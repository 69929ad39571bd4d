import StackMachine.Encoding
import StackMachine.Proofs.Literals

/-!
# Encoding and decoding

What is encoded in JSON and written as text, in either layout, is read and
decoded as what it was.

## Main definitions

* `Json.decode`, `Json.recode` — from a text to a value, and back to a text
* `Json.Faithful` — encoders whose documents are decoded as what they were
* `Json.RoundTrips` — encoders for which that holds of texts

## Main statements

* `Json.Faithful.roundTrips` — it is enough to look at documents
* `Config.ofText_toText` — a configuration is read back if a machine can be
  built by it
* `encodings_round_trip` — memories, banks, snapshots and configurations

## Design notes

**From documents to texts in one step.**  That a document is read as it was
written holds of every legible document.  So for each type it remains to say
that its documents are legible, and to decode them.

**A size may be too large for a configuration.**  In a configuration it is any
natural number, and in a text it is a number of sixty-four bits.
-/

namespace StackMachine

namespace Json

variable {α β γ : Type} {toJson : α → Json} {ofJson? : Json → Option α}
  {Encodable : α → Prop}

/-! ### Texts -/

/-- The two ways in which a document is written. -/
def layouts : List (Json → String) := [compact, pretty]

/-- A document that can be written is read back from its text, in the compact
layout and in the one with indents. -/
theorem parse?_layout {document : Json} (h : document.Legible) :
    ∀ write ∈ layouts, parse? (write document) = some document := by
  intro write hwrite
  rcases List.mem_cons.1 hwrite with rfl | hwrite
  · exact parse?_compact h
  · obtain rfl := List.mem_singleton.1 hwrite
    exact parse?_pretty h

/-- The value that a text denotes. -/
def decode (ofJson? : Json → Option α) (text : String) : Option α :=
  (parse? text).bind ofJson?

/-- The text that is written for the value that a text denotes. -/
def recode (write : Json → String) (toJson : α → Json) (ofJson? : Json → Option α)
    (text : String) : Option String :=
  (decode ofJson? text).map fun a => write (toJson a)

/-- An encoder whose documents are decoded as the values that they were. -/
structure Faithful (toJson : α → Json) (ofJson? : Json → Option α)
    (Encodable : α → Prop) :
    Prop where
  /-- The documents can be read. -/
  legible : ∀ a, (toJson a).Legible
  /-- They are decoded as what was encoded. -/
  ofJson?_toJson : ∀ a, Encodable a → ofJson? (toJson a) = some a
  /-- What is decoded can be encoded. -/
  encodable : ∀ document a, ofJson? document = some a → Encodable a

/-- An encoder whose texts are read as the values that they were. -/
structure RoundTrips (toJson : α → Json) (ofJson? : Json → Option α)
    (Encodable : α → Prop) :
    Prop where
  /-- A value that is written is read back. -/
  decode_write : ∀ write ∈ layouts, ∀ a, Encodable a →
    decode ofJson? (write (toJson a)) = some a
  /-- So is a value that was read, however the text was written. -/
  decode_again : ∀ write ∈ layouts, ∀ text a, decode ofJson? text = some a →
    decode ofJson? (write (toJson a)) = some a
  /-- A text that was written for a value that was read is written for it again. -/
  recode_again : ∀ write ∈ layouts, ∀ text again,
  recode write toJson ofJson? text = some again →
    recode write toJson ofJson? again = some again

/-- What is decoded from its own encoding makes the round trip through text as
well.  All that remains to be shown of a type is then about documents, and
nothing about characters. -/
theorem Faithful.roundTrips (h : Faithful toJson ofJson? Encodable) :
    RoundTrips toJson ofJson? Encodable := by
  have hwrite : ∀ write ∈ layouts, ∀ a, Encodable a →
      decode ofJson? (write (toJson a)) = some a := by
    intro write hlayout a ha
    rw [decode, parse?_layout (h.legible a) write hlayout, Option.bind_some,
      h.ofJson?_toJson a ha]
  have hagain : ∀ write ∈ layouts, ∀ text a, decode ofJson? text = some a →
      decode ofJson? (write (toJson a)) = some a := by
    intro write hlayout text a htext
    obtain ⟨document, -, hdocument⟩ := Option.bind_eq_some_iff.1 htext
    exact hwrite write hlayout a (h.encodable document a hdocument)
  refine ⟨hwrite, hagain, ?_⟩
  intro write hlayout text again htext
  obtain ⟨a, ha, rfl⟩ := Option.map_eq_some_iff.1 htext
  rw [recode, hagain write hlayout text a ha, Option.map_some]

/-! ### Lists -/

/-- Items are decoded one by one.  What each of them comes to is what
their list comes to. -/
theorem mapM_map_of_decoded {encode : α → β} {decode : β → Option γ} {value : α → γ}
    (h : ∀ a, decode (encode a) = some (value a)) (as : List α) :
    (as.map encode).mapM decode = some (as.map value) := by
  induction as with
  | nil => rfl
  | cons a as ih =>
    rw [List.map_cons, List.mapM_cons, h, ih]
    rfl

theorem legible_array_map {encode : α → Json} (h : ∀ a, (encode a).Legible)
    (as : List α) :
    (array (as.map encode)).Legible := by
  refine .array ?_
  intro item hitem
  obtain ⟨a, -, rfl⟩ := List.mem_map.1 hitem
  exact h a

end Json

open Json (Faithful RoundTrips decode natural natural?_natural
  le_of_natural? name?_name
  legible_natural legible_name legible_record legible_array_map fields?_record
    mapM_map_of_decoded)

/-! ### Names -/

namespace Register

/-- A register is written as its name, and names have no character that a
text could not hold. -/
theorem legible_toJson (r : Register) : r.toJson.Legible :=
  legible_name (by cases r <;> decide)

/-- A register is read back from its name, as no two registers have the same one. -/
theorem ofJson?_toJson (r : Register) : ofJson? r.toJson = some r := by
  have hname : r.toJson.name? = some r.name := name?_name (by cases r <;> decide)
  rw [ofJson?, hname, Option.bind_some, named?_name]

end Register

namespace RunState

theorem legible_toJson (state : RunState) : state.toJson.Legible :=
  legible_name (by cases state <;> decide)

theorem ofJson?_toJson (state : RunState) : ofJson? state.toJson = some state := by
  have hname : state.toJson.name? = some state.name :=
    name?_name (by cases state <;> decide)
  rw [ofJson?, hname, Option.bind_some]
  cases state <;> rfl

end RunState

namespace OpcodePolicy

theorem legible_toJson (policy : OpcodePolicy) : policy.toJson.Legible :=
  legible_name (by cases policy <;> decide)

theorem ofJson?_toJson (policy : OpcodePolicy) :
    ofJson? policy.toJson = some policy := by
  have hname : policy.toJson.name? = some policy.name :=
    name?_name (by cases policy <;> decide)
  rw [ofJson?, hname, Option.bind_some]
  cases policy <;> rfl

end OpcodePolicy

/-! ### Memories and banks -/

namespace Memory

theorem legible_toJson (m : Memory) : m.toJson.Legible := by
  refine legible_record ["bytes"] rfl (by decide) (List.forall_mem_singleton.2 ?_)
  exact legible_array_map (fun byte => legible_natural byte.toNat) m.bytes.toList

/-- A memory is read back byte by byte.  Each number that is written for a byte
is small enough to be read as one. -/
theorem ofJson?_toJson (m : Memory) : ofJson? m.toJson = some m := by
  have hfields : m.toJson.fields? ["bytes"] .ignored =
      some
        [("bytes", .array (m.bytes.toList.map fun byte => natural byte.toNat))] :=
    fields?_record [("bytes", _)] ["bytes"] rfl (by decide) (by decide) .ignored
  have hbyte : ∀ byte : UInt8, (natural byte.toNat).natural? 0xff =
      some byte.toNat :=
    fun byte => natural?_natural (Nat.le_of_lt_succ byte.toNat_lt)
  have hbytes := mapM_map_of_decoded hbyte m.bytes.toList
  have hback : (m.bytes.toList.map UInt8.toNat).map UInt8.ofNat =
      m.bytes.toList := by
    simp [Function.comp_def]
  rw [ofJson?, hfields]
  show (List.mapM (Json.natural? 0xff) _).bind _ = _
  rw [hbytes, Option.bind_some, hback]
  rfl

/-- Memories of any size are encoded faithfully, also those that are too small
or too large for a machine. -/
theorem faithful_toJson : Faithful toJson ofJson? fun _ => True where
  legible := legible_toJson
  ofJson?_toJson m _ := ofJson?_toJson m
  encodable _ _ _ := trivial

end Memory

namespace Bank

/-- A bank is read back from the memory that it is written as, whatever the
size of that memory. -/
theorem ofJson?_toJson (b : Bank) : ofJson? b.toJson = some b := by
  have hmemory : Memory.ofJson? b.toJson = some b.memory :=
    Memory.ofJson?_toJson b.memory
  rw [ofJson?, hmemory]
  exact dif_pos b.size_memory

/-- Banks are encoded as faithfully as their memories. -/
theorem faithful_toJson : Faithful toJson ofJson? fun _ => True where
  legible b := Memory.legible_toJson b.memory
  ofJson?_toJson b _ := ofJson?_toJson b
  encodable _ _ _ := trivial

end Bank

/-! ### Snapshots -/

namespace Snapshot

theorem legible_entryToJson (entry : Register × UInt16) :
    (entryToJson entry).Legible := by
  refine .array (List.forall_mem_cons.2 ⟨entry.1.legible_toJson, ?_⟩)
  exact List.forall_mem_singleton.2 (legible_natural entry.2.toNat)

theorem entryOfJson?_entryToJson (entry : Register × UInt16) :
    entryOfJson? (entryToJson entry) = some entry := by
  have hword : (natural entry.2.toNat).natural? 0xffff = some entry.2.toNat :=
    natural?_natural (Nat.le_of_lt_succ entry.2.toNat_lt)
  rw [entryToJson, entryOfJson?, entry.1.ofJson?_toJson, hword]
  show some (entry.1, UInt16.ofNat entry.2.toNat) = some entry
  rw [UInt16.ofNat_toNat]

theorem legible_toJson (s : Snapshot) : s.toJson.Legible := by
  refine legible_record ["state", "cycles", "frame_bytes", "registers"]
    rfl (by decide) ?_
  simp only [List.forall_mem_cons]
  refine ⟨s.state.legible_toJson, legible_natural _, legible_natural _, ?_, ?_⟩
  · exact legible_array_map legible_entryToJson s.registers
  · exact List.forall_mem_nil _

/-- A snapshot is read back, its registers in the order in which they were
written. -/
theorem ofJson?_toJson (s : Snapshot) : ofJson? s.toJson = some s := by
  have hfields :
      s.toJson.fields? ["state", "cycles", "frame_bytes", "registers"] .ignored =
      some [("registers", .array (s.registers.map entryToJson)),
        ("frame_bytes", natural s.frameBytes.toNat),
        ("cycles", natural s.cycles.toNat),
        ("state", s.state.toJson)] :=
    fields?_record [("state", _), ("cycles", _), ("frame_bytes", _),
      ("registers", _)]
      ["state", "cycles", "frame_bytes", "registers"] rfl (by decide)
      (by decide) .ignored
  have hcycles : (natural s.cycles.toNat).natural? 0xffffffffffffffff =
      some s.cycles.toNat :=
    natural?_natural (Nat.le_of_lt_succ s.cycles.toNat_lt)
  have hframe :
      (natural s.frameBytes.toNat).natural? 0xffff = some s.frameBytes.toNat :=
    natural?_natural (Nat.le_of_lt_succ s.frameBytes.toNat_lt)
  have hregisters : (s.registers.map entryToJson).mapM entryOfJson? =
      some (s.registers.map id) :=
    mapM_map_of_decoded entryOfJson?_entryToJson s.registers
  rw [ofJson?, hfields]
  show (RunState.ofJson? s.state.toJson).bind _ = _
  rw [s.state.ofJson?_toJson, Option.bind_some]
  show ((natural s.cycles.toNat).natural? _).bind _ = _
  rw [hcycles, Option.bind_some]
  show ((natural s.frameBytes.toNat).natural? _).bind _ = _
  rw [hframe, Option.bind_some]
  show (List.mapM entryOfJson? (s.registers.map entryToJson)).bind _ = _
  rw [hregisters, Option.bind_some, List.map_id, UInt64.ofNat_toNat,
    UInt16.ofNat_toNat]
  rfl

/-- Snapshots are encoded faithfully. -/
theorem faithful_toJson : Faithful toJson ofJson? fun _ => True where
  legible := legible_toJson
  ofJson?_toJson s _ := ofJson?_toJson s
  encodable _ _ _ := trivial

end Snapshot

/-! ### Configurations -/

namespace Config

variable {c : Config}

/-- A configuration is written as a record with a number and the name of a
policy. -/
theorem legible_toJson (c : Config) : c.toJson.Legible := by
  refine legible_record ["memory_size", "opcode_policy"] rfl (by decide) ?_
  simp only [List.forall_mem_cons]
  exact ⟨legible_natural _, c.opcodePolicy.legible_toJson, List.forall_mem_nil _⟩

/-- The size of memory that the fields of a configuration give. -/
def sizeIn (fields : List (String × Json)) : Option Nat :=
  match fields.lookup "memory_size" with
  | some size => size.natural? 0xffffffffffffffff
  | none => some default.memorySize

/-- The policy that the fields of a configuration give. -/
def policyIn (fields : List (String × Json)) : Option OpcodePolicy :=
  match fields.lookup "opcode_policy" with
  | some policy => OpcodePolicy.ofJson? policy
  | none => some default.opcodePolicy

/-- A configuration is read field by field, the size before the policy.  A field
that is missing has its default, but a field of another name is refused. -/
theorem ofJson?_eq (document : Json) :
    ofJson? document =
      (document.fields? ["memory_size", "opcode_policy"] .refused).bind
        fun fields =>
        (sizeIn fields).bind fun size => (policyIn fields).bind fun policy =>
          some ⟨size, policy⟩ := by
  refine Option.bind_congr fun fields _ => ?_
  rw [sizeIn, policyIn]
  cases fields.lookup "memory_size" <;> cases fields.lookup "opcode_policy" <;> rfl

/-- A configuration is read back if its size fits sixty-four bits.  A larger
number can be written, but it is no size when it is read. -/
theorem ofJson?_toJson (h : c.memorySize ≤ 0xffffffffffffffff) :
    ofJson? c.toJson = some c := by
  have hfields : c.toJson.fields? ["memory_size", "opcode_policy"] .refused =
      some [("opcode_policy", c.opcodePolicy.toJson),
        ("memory_size", natural c.memorySize)] :=
    fields?_record [("memory_size", _), ("opcode_policy", _)]
      ["memory_size", "opcode_policy"] rfl
      (by decide) (by decide) .refused
  have hsize : sizeIn [("opcode_policy", c.opcodePolicy.toJson),
      ("memory_size", natural c.memorySize)] = some c.memorySize :=
    natural?_natural h
  have hpolicy : policyIn [("opcode_policy", c.opcodePolicy.toJson),
      ("memory_size", natural c.memorySize)] = some c.opcodePolicy :=
    c.opcodePolicy.ofJson?_toJson
  rw [ofJson?_eq, hfields, Option.bind_some, hsize, Option.bind_some, hpolicy,
    Option.bind_some]

/-- A size that is read fits sixty-four bits, and so does the default. -/
theorem sizeIn_le {fields : List (String × Json)} {size : Nat}
    (h : sizeIn fields = some size) :
    size ≤ 0xffffffffffffffff := by
  unfold sizeIn at h
  split at h
  · exact le_of_natural? h
  · cases h
    decide

/-- What is read as a configuration can be written and read again, as its size
fits sixty-four bits. -/
theorem memorySize_of_ofJson? {document : Json} (h : ofJson? document = some c) :
    c.memorySize ≤ 0xffffffffffffffff := by
  rw [ofJson?_eq] at h
  obtain ⟨fields, -, h⟩ := Option.bind_eq_some_iff.1 h
  obtain ⟨size, hsize, h⟩ := Option.bind_eq_some_iff.1 h
  obtain ⟨policy, -, h⟩ := Option.bind_eq_some_iff.1 h
  cases h
  exact sizeIn_le hsize

/-- Configurations are encoded faithfully, as long as their sizes fit sixty-four
bits. -/
theorem faithful_toJson :
    Faithful toJson ofJson? fun c => c.memorySize ≤ 0xffffffffffffffff where
  legible := legible_toJson
  ofJson?_toJson _ h := ofJson?_toJson h
  encodable _ _ h := memorySize_of_ofJson? h

/-- A configuration is read back from its text, if a machine can be built by it.
If not, the text is understood and refused because of its size. -/
theorem ofText_toText (h : c.memorySize ≤ 0xffffffffffffffff) :
    ofText c.toText =
      if 2 ≤ c.memorySize ∧ c.memorySize ≤ 65536 then .ok c
      else .error (.memorySize c.memorySize) := by
  have hpretty : Json.pretty ∈ Json.layouts :=
    List.mem_cons_of_mem _ List.mem_cons_self
  have hread : decode ofJson? c.toText = some c :=
    faithful_toJson.roundTrips.decode_write Json.pretty hpretty c h
  rw [decode] at hread
  rw [ofText, hread]
  show c.validate.map (fun _ => c) = _
  rw [validate]
  split <;> rfl

end Config

/-! ### All encodings -/

/-- What is encoded and written is read and decoded, for memories, banks,
snapshots and those configurations whose size is a number of sixty-four bits.  A
configuration is accepted as text if a machine can be built by it, and the
snapshot of every machine is read back. -/
theorem encodings_round_trip :
    RoundTrips Memory.toJson Memory.ofJson? (fun _ => True) ∧
      RoundTrips Bank.toJson Bank.ofJson? (fun _ => True) ∧
      RoundTrips Snapshot.toJson Snapshot.ofJson? (fun _ => True) ∧
      RoundTrips Config.toJson Config.ofJson?
        (fun c => c.memorySize ≤ 0xffffffffffffffff) ∧
      (∀ c : Config, c.memorySize ≤ 0xffffffffffffffff →
        Config.ofText c.toText =
          if 2 ≤ c.memorySize ∧ c.memorySize ≤ 65536 then .ok c
          else .error (.memorySize c.memorySize)) ∧
      ∀ m : Machine, ∀ write ∈ Json.layouts,
        decode Snapshot.ofJson? (write m.snapshot.toJson) = some m.snapshot := by
  refine ⟨Memory.faithful_toJson.roundTrips, Bank.faithful_toJson.roundTrips,
    Snapshot.faithful_toJson.roundTrips, Config.faithful_toJson.roundTrips, ?_, ?_⟩
  · exact fun c => Config.ofText_toText
  · intro m write hwrite
    exact Snapshot.faithful_toJson.roundTrips.decode_write write hwrite
      m.snapshot trivial

/-- A configuration that leaves out its size and has blanks in odd places. -/
def sparseText : String :=
  " \x7b\t\"opcode_policy\" : \x7b\"permissive\":null\x7d\n\x7d"

/-- It is written with all its fields and without blanks, and then always so. -/
theorem sparseText_round_trips :
    Json.recode Json.compact Config.toJson Config.ofJson? sparseText =
        some Config.permissive.toJson.compact ∧
      Json.recode Json.compact Config.toJson Config.ofJson?
        Config.permissive.toJson.compact =
        some Config.permissive.toJson.compact ∧
      Config.ofText (Config.toText ⟨1, .strict⟩) = .error (.memorySize 1) := by
  have hfirst : Json.recode Json.compact Config.toJson Config.ofJson? sparseText =
      some Config.permissive.toJson.compact := by decide +kernel
  obtain ⟨-, -, -, hconfig, htext, -⟩ := encodings_round_trip
  exact ⟨hfirst, hconfig.recode_again Json.compact List.mem_cons_self
    sparseText _ hfirst,
    htext ⟨1, .strict⟩ (by decide)⟩

end StackMachine
