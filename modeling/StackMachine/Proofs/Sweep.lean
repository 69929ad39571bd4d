import StackMachine.Listing

/-!
# Sweeping over bytes

A listing takes bytes from the front until none are left, whatever they are.  No
byte is passed over or shown twice, and the same lines are found in memory by
reading at one address after another.

## Main definitions

* `Listing.StartsData` — bytes whose first is no opcode, or one whose operands
  are cut off
* `Listing.Line.reading` — the text and the length of a line
* `Listing.Walk` — items read from a memory one after another, up to its end

## Main statements

* `Instruction.decode?_eq_none` — when there is no instruction at the front
* `Listing.item?_take_five` — five bytes tell what item is at the front
* `Listing.flatMap_raw_lines` — the lines show all bytes, in order
* `Listing.line_of_split` — a line shows the first item of the bytes behind the
  lines above it
* `Listing.walk_iff` — what is read on a walk through a memory are the lines of
  its bytes

## Design notes

**One induction for the sweep.**  `Listing.lines_rec` follows the bytes as the
listing does, by items; what holds of no bytes and of an item before any others
holds of all bytes.

**A walk counts offsets and reads at addresses.**  Behind the last address the
two part, and a walk would read from the beginning again.  So its end can be
reached in a memory of at most 65536 bytes.
-/

namespace StackMachine

namespace Operand

variable {kind : OperandKind} {kinds : List OperandKind} {bytes rest : List UInt8}

/-- What is read does not depend on the bytes behind it. -/
theorem read?_append {operand : Operand}
    (h : read? kind bytes = some (operand, rest)) (others : List UInt8) :
    read? kind (bytes ++ others) = some (operand, rest ++ others) := by
  unfold read? at h
  split at h <;> cases h <;> rfl

/-- Operands that have been read stay the same with more bytes behind them. -/
theorem readAll?_append {operands : List Operand}
    (h : readAll? kinds bytes = some (operands, rest)) (others : List UInt8) :
    readAll? kinds (bytes ++ others) = some (operands, rest ++ others) := by
  induction kinds generalizing bytes operands with
  | nil =>
    cases h
    rfl
  | cons kind kinds ih =>
    simp only [readAll?, Option.bind_eq_bind, Option.bind_eq_some_iff] at h
    obtain ⟨⟨operand, behind⟩, hfirst, ⟨operands, left⟩, hrest, heq⟩ := h
    cases heq
    rw [readAll?, read?_append hfirst]
    simp only [Option.bind_eq_bind, Option.bind_some, ih hrest]
    rfl

/-- An operand can be read if there are as many bytes as it takes.  Every byte
is some operand, so there is no other condition. -/
theorem read?_of_le (h : kind.width ≤ bytes.length) :
    ∃ operand rest, read? kind bytes = some (operand, rest) := by
  cases kind with
  | literal | address =>
    match bytes, h with
    | high :: low :: rest, _ => exact ⟨_, rest, rfl⟩
  | register | registerIndex =>
    match bytes, h with
    | byte :: rest, _ => exact ⟨_, rest, rfl⟩

/-- Operands are read if there are as many bytes as they take. -/
theorem readAll?_of_le (h : OperandKind.totalWidth kinds ≤ bytes.length) :
    ∃ operands rest, readAll? kinds bytes = some (operands, rest) := by
  induction kinds generalizing bytes with
  | nil => exact ⟨[], bytes, rfl⟩
  | cons kind kinds ih =>
    rw [OperandKind.totalWidth] at h
    obtain ⟨operand, behind, hfirst⟩ :=
      read?_of_le (Nat.le_trans (Nat.le_add_right ..) h)
    have hlength := (read?_spec hfirst).2
    have hbehind : OperandKind.totalWidth kinds ≤ behind.length := by omega
    obtain ⟨operands, rest, hrest⟩ := ih hbehind
    refine ⟨operand :: operands, rest, ?_⟩
    rw [readAll?, hfirst]
    simp only [Option.bind_eq_bind, Option.bind_some, hrest]
    rfl

end Operand

namespace Instruction

variable {code : UInt8} {bytes : List UInt8}

/-- There is no instruction if the first byte is no opcode or the bytes are
fewer than it takes.  No other bytes are refused. -/
theorem decode?_eq_none :
    decode? (code :: bytes) = none ↔
      ∀ op, Opcode.ofByte? code = some op → (code :: bytes).length < op.length := by
  rw [Option.eq_none_iff_forall_ne_some]
  refine ⟨fun h op hop => ?_, ?_⟩
  · refine Nat.lt_of_not_le fun hlong => ?_
    rw [List.length_cons, Opcode.length] at hlong
    have hoperands : OperandKind.totalWidth op.layout ≤ bytes.length := by omega
    obtain ⟨operands, rest, hread⟩ := Operand.readAll?_of_le hoperands
    obtain ⟨i, -, rfl, rfl⟩ := ofOperands?_of_kinds (Operand.readAll?_spec hread).1
    exact h (i, rest) (decode?_cons.2 ⟨hop, hread⟩)
  · rintro h ⟨i, rest⟩ hdecode
    obtain ⟨hop, hread⟩ := decode?_cons.1 hdecode
    have hshort := h i.opcode hop
    have hlength := (Operand.readAll?_spec hread).2
    rw [List.length_cons, Opcode.length] at hshort
    omega

end Instruction

namespace Listing

open Instruction (decode?)

/-! ### The item at the front -/

/-- The first byte is no opcode, or there are fewer bytes than its
instruction takes. -/
def StartsData (bytes : List UInt8) : Prop :=
  ∃ code rest, bytes = code :: rest ∧
    ∀ op, Opcode.ofByte? code = some op → bytes.length < op.length

variable {bytes : List UInt8} {item : Item}

theorem item?_of_some {i : Instruction} {rest : List UInt8}
    (h : decode? bytes = some (i, rest)) :
    item? bytes = some (.instruction i) := by
  cases bytes with
  | nil => cases h
  | cons code bytes => rw [item?, h]

theorem item?_of_none {code : UInt8} (h : decode? (code :: bytes) = none) :
    item? (code :: bytes) = some (.data code) := by
  rw [item?, h]

/-- An item is an instruction that is decoded, or the first byte where none is. -/
theorem item?_cases (h : item? bytes = some item) :
    (∃ i rest, item = .instruction i ∧ decode? bytes = some (i, rest)) ∨
      ∃ code rest, item = .data code ∧ bytes = code :: rest ∧
        decode? bytes = none := by
  cases bytes with
  | nil => cases h
  | cons code bytes =>
    cases hdecode : decode? (code :: bytes) with
    | some decoded =>
      rw [item?_of_some hdecode] at h
      cases h
      exact .inl ⟨_, _, rfl, rfl⟩
    | none =>
      rw [item?_of_none hdecode] at h
      cases h
      exact .inr ⟨_, _, rfl, rfl, rfl⟩

/-- An item lies inside the bytes, so a listing shows no byte that is not there. -/
theorem length_le_of_item? (h : item? bytes = some item) :
    item.length ≤ bytes.length := by
  rcases item?_cases h with ⟨i, rest, rfl, hdecode⟩ | ⟨code, rest, rfl, rfl, -⟩
  · cases bytes with
    | nil => cases hdecode
    | cons code bytes =>
      have hlength :=
        (Operand.readAll?_spec (Instruction.decode?_cons.1 hdecode).2).2
      rw [Item.length, Opcode.length, List.length_cons]
      omega
  · exact Nat.succ_le_succ (Nat.zero_le _)

/-- An item is a byte of data exactly if the bytes start with one.
Whether they do is a matter of the opcode and of how many bytes there are,
and needs no decoding. -/
theorem item?_eq_data_iff (h : item? bytes = some item) :
    (∃ byte, item = .data byte) ↔ StartsData bytes := by
  rcases item?_cases h with
    ⟨i, rest, rfl, hdecode⟩ | ⟨code, rest, rfl, rfl, hdecode⟩
  · refine ⟨fun ⟨byte, hbyte⟩ => (nomatch hbyte), ?_⟩
    rintro ⟨code, rest, rfl, hshort⟩
    rw [Instruction.decode?_eq_none.2 hshort] at hdecode
    cases hdecode
  · exact ⟨fun _ => ⟨code, rest, rfl, Instruction.decode?_eq_none.1 hdecode⟩,
      fun _ => ⟨code, rfl⟩⟩

/-- Five bytes tell what item is at the front.  A listing at an address looks at
no more than that. -/
theorem item?_take_five (bytes : List UInt8) :
    item? (bytes.take 5) = item? bytes := by
  cases bytes with
  | nil => rfl
  | cons code bytes =>
    rw [List.take_succ_cons]
    cases hdecode : decode? (code :: bytes.take 4) with
    | some decoded =>
      obtain ⟨hop, hread⟩ := Instruction.decode?_cons.1 hdecode
      have hmore := Operand.readAll?_append hread (bytes.drop 4)
      rw [List.take_append_drop] at hmore
      rw [item?_of_some hdecode,
        item?_of_some (Instruction.decode?_cons.2 ⟨hop, hmore⟩)]
    | none =>
      have hnone : decode? (code :: bytes) = none := by
        refine Instruction.decode?_eq_none.2 fun op hop => ?_
        have hshort := Instruction.decode?_eq_none.1 hdecode op hop
        have hfive := op.length_le_five
        rw [List.length_cons, List.length_take] at hshort
        rw [List.length_cons]
        omega
      rw [item?_of_none hdecode, item?_of_none hnone]

/-! ### Lines -/

/-- What holds of no bytes, and of an item before bytes of which it holds, holds
of all bytes.  Proofs about listings follow their items by this, and need not be
concerned with how many bytes an item takes. -/
theorem lines_rec {motive : UInt16 → List UInt8 → Prop}
    (nil : ∀ address, motive address [])
    (item : ∀ address byte rest item, item? (byte :: rest) = some item →
      motive (address + UInt16.ofNat item.length)
        ((byte :: rest).drop item.length) → motive address (byte :: rest))
    (address : UInt16) (bytes : List UInt8) : motive address bytes := by
  match bytes with
  | [] => exact nil address
  | byte :: rest =>
    obtain ⟨first, hfirst⟩ := item?_cons byte rest
    exact item address byte rest first hfirst (lines_rec nil item _ _)
termination_by bytes.length
decreasing_by
  have hpos := first.length_pos
  simp only [List.length_drop, List.length_cons]
  omega

/-- The lines show all bytes, in order.  Nothing is left out and
nothing is shown twice. -/
theorem flatMap_raw_lines (address : UInt16) (bytes : List UInt8) :
    (lines address bytes).flatMap Line.raw = bytes := by
  induction address, bytes using lines_rec with
  | nil address => rw [lines_nil, List.flatMap_nil]
  | item address byte rest item hitem ih =>
    rw [lines_cons hitem, List.flatMap_cons, ih, List.take_append_drop]

variable {address : UInt16} {before after : List Line} {line : Line}

/-- Behind some lines, the listing goes on with the bytes that they do not show.
So each line can be looked at as the first of a listing. -/
theorem lines_of_split (h : lines address bytes = before ++ line :: after) :
    line.address = address + UInt16.ofNat (before.flatMap Line.raw).length ∧
      lines line.address (bytes.drop (before.flatMap Line.raw).length) =
        line :: after := by
  induction before generalizing address bytes with
  | nil =>
    cases bytes with
    | nil => cases (lines_nil address).symm.trans h
    | cons byte rest =>
      obtain ⟨item, hitem⟩ := item?_cons byte rest
      cases (lines_cons hitem).symm.trans h
      exact ⟨(UInt16.add_zero address).symm, lines_cons hitem⟩
  | cons first before ih =>
    cases bytes with
    | nil => cases (lines_nil address).symm.trans h
    | cons byte rest =>
      obtain ⟨item, hitem⟩ := item?_cons byte rest
      obtain ⟨rfl, hrest⟩ := List.cons_eq_cons.1 ((lines_cons hitem).symm.trans h)
      have hlength : ((byte :: rest).take item.length).length = item.length :=
        List.length_take_of_le (length_le_of_item? hitem)
      obtain ⟨haddress, hlines⟩ := ih hrest
      rw [List.flatMap_cons, List.length_append, hlength]
      refine ⟨?_, ?_⟩
      · rw [haddress, UInt16.ofNat_add, UInt16.add_assoc]
      · rw [← List.drop_drop, hlines]

/-- A line shows the first item of the bytes behind the lines above it. -/
theorem line_of_split (h : lines address bytes = before ++ line :: after) :
    ∃ item, item? (bytes.drop (before.flatMap Line.raw).length) = some item ∧
      line.text = item.text ∧
      line.raw =
        (bytes.drop (before.flatMap Line.raw).length).take item.length := by
  obtain ⟨-, hlines⟩ := lines_of_split h
  cases hbytes : bytes.drop (before.flatMap Line.raw).length with
  | nil =>
    rw [hbytes, lines_nil] at hlines
    cases hlines
  | cons byte rest =>
    obtain ⟨item, hitem⟩ := item?_cons byte rest
    rw [hbytes, lines_cons hitem] at hlines
    obtain ⟨hline, -⟩ := List.cons_eq_cons.1 hlines
    exact ⟨item, hitem, by rw [← hline], by rw [← hline]⟩

/-! ### Walking through a memory -/

/-- The text and the length of a line. -/
def Line.reading (line : Line) : String × Nat := (line.text, line.raw.length)

/-- The items that are read from an offset of a memory on, each at the address
of the offset behind the last, until the end of the memory is reached. -/
inductive Walk (m : Memory) : (offset : Nat) → List (String × Nat) → Prop where
  /-- There is nothing behind the end. -/
  | done {offset : Nat} (hend : m.size ≤ offset) : Walk m offset []
  /-- An item is read, and the walk goes on behind it. -/
  | item {offset : Nat} {text : String} {length : Nat} {items : List (String × Nat)}
    (hinside : offset < m.size)
    (hread : atAddress m (UInt16.ofNat offset) = .ok (text, length))
    (hrest : Walk m (offset + length) items) :
      Walk m offset ((text, length) :: items)

variable {m : Memory}

/-- The window at an offset has the same item at its front as all
bytes from there on. -/
theorem item?_window_eq (m : Memory) (offset : Nat) :
    item? (m.window offset 5) = item? (m.bytes.toList.drop offset) := by
  rw [← item?_take_five (m.bytes.toList.drop offset), Memory.window,
    Array.toList_extract, List.extract_eq_take_drop, Nat.add_sub_cancel_left]

theorem lt_size_of_item? {offset : Nat}
    (h : item? (m.bytes.toList.drop offset) = some item) :
    offset < m.size := by
  have hlength := length_le_of_item? h
  have hpos := item.length_pos
  rw [List.length_drop, Array.length_toList] at hlength
  rw [Memory.size]
  omega

/-- What is read at an address is the first item of the window there. -/
theorem atAddress_of_item? (h : item? (m.window address.toNat 5) = some item) :
    atAddress m address = .ok (item.text, item.length) := by
  have hlength := length_le_of_item? h
  have hpos := item.length_pos
  rw [Memory.length_window] at hlength
  rw [atAddress, if_neg (by omega), if_neg (by omega), first, h]

/-- It is the first item of all bytes from there on.  The lines of a listing are
known by these bytes. -/
theorem atAddress_of_item
    (h : item? (m.bytes.toList.drop address.toNat) = some item) :
    atAddress m address = .ok (item.text, item.length) :=
  atAddress_of_item? (by rw [item?_window_eq, h])

/-- Something can be read at exactly the addresses inside memory.  There may be
no instruction, but then there is data. -/
theorem atAddress_eq_ok_iff (m : Memory) (address : UInt16) :
    (∃ reading, atAddress m address = .ok reading) ↔ address.toNat < m.size := by
  constructor
  · rintro ⟨reading, hread⟩
    rcases Nat.lt_trichotomy address.toNat m.size with hinside | hend | houtside
    · exact hinside
    · rw [atAddress, if_neg (by omega), if_pos hend.symm] at hread
      cases hread
    · rw [atAddress, if_pos houtside] at hread
      cases hread
  · intro hinside
    exact ⟨_, by rw [atAddress, if_neg (Nat.lt_asymm hinside),
      if_neg (Nat.ne_of_gt hinside)]⟩

/-- A line and a reading show an item by the same text and the same length. -/
theorem reading_of_item? (h : item? bytes = some item)
    (htext : line.text = item.text) (hraw : line.raw = bytes.take item.length) :
    line.reading = (item.text, item.length) := by
  rw [Line.reading, htext, hraw, List.length_take_of_le (length_le_of_item? h)]

/-- What is read on a walk through a memory are the lines of its bytes.  There
is always one walk and no other, and it ends at the last byte. -/
theorem walk_iff (hsize : m.size ≤ 65536) (address : UInt16) (offset : Nat)
    (items : List (String × Nat)) :
    Walk m offset items ↔
      items = (lines address (m.bytes.toList.drop offset)).map Line.reading := by
  generalize hbytes : m.bytes.toList.drop offset = bytes
  induction address, bytes using lines_rec generalizing offset items with
  | nil address =>
    have hend : m.size ≤ offset := List.drop_eq_nil_iff.1 hbytes
    rw [lines_nil, List.map_nil]
    refine ⟨fun h => ?_, fun h => h ▸ .done hend⟩
    cases h with
    | done => rfl
    | item hinside => exact absurd hinside (Nat.not_lt.2 hend)
  | item address byte rest item hitem ih =>
    have hinside : offset < m.size := lt_size_of_item? (by rw [hbytes, hitem])
    have hoffset : (UInt16.ofNat offset).toNat = offset :=
      UInt16.toNat_ofNat_of_lt' (Nat.lt_of_lt_of_le hinside hsize)
    have hread : atAddress m (UInt16.ofNat offset) = .ok (item.text, item.length) :=
      atAddress_of_item (by rw [hoffset, hbytes, hitem])
    have hbehind : m.bytes.toList.drop (offset + item.length) =
        (byte :: rest).drop item.length := by
      rw [← List.drop_drop, hbytes]
    have hreading :
        (Line.mk address item.text ((byte :: rest).take item.length)).reading =
        (item.text, item.length) := reading_of_item? hitem rfl rfl
    rw [lines_cons hitem, List.map_cons, hreading]
    constructor
    · intro h
      cases h with
      | done hend => exact absurd hinside (Nat.not_lt.2 hend)
      | item _ hsame hrest =>
        cases hread.symm.trans hsame
        rw [(ih _ _ hbehind).1 hrest]
    · rintro rfl
      exact .item hinside hread ((ih _ _ hbehind).2 rfl)

/-- A line is read at its address if the lines above it end inside the
address space.  Otherwise the address has wrapped around, and another
item is read there. -/
theorem atAddress_of_split
    (h : lines address (m.bytes.toList.drop address.toNat) =
      before ++ line :: after)
    (hbefore : address.toNat + (before.flatMap Line.raw).length < 65536) :
    atAddress m line.address = .ok line.reading := by
  obtain ⟨haddress, -⟩ := lines_of_split h
  obtain ⟨item, hitem, htext, hraw⟩ := line_of_split h
  have hoffset :
      line.address.toNat = address.toNat + (before.flatMap Line.raw).length := by
    rw [haddress, ← UInt16.toNat_ofNat_of_lt' hbefore, UInt16.ofNat_add,
      UInt16.ofNat_toNat]
  have hreading := reading_of_item? hitem htext hraw
  rw [List.drop_drop, ← hoffset] at hitem
  rw [atAddress_of_item hitem, hreading]

end Listing

end StackMachine
