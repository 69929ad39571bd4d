import StackMachine.Proofs.Columns

/-!
# Listings lose nothing

Any bytes can be listed, and from their listing they can be read back.  The
lines of the bytes of a memory are what is read there, one after another, as far
as there are addresses.

## Main definitions

* `Listing.wide` — a memory with a byte that has no address

## Main statements

* `Listing.listed_lines_read_back` — the lines are read off the text of a
  listing
* `Listing.listing_loses_nothing` — what the listing of any bytes says, and
  where its lines are read
* `Listing.wide_walk_turns_back` — a walk through a larger memory does not read
  its lines

## Design notes

**Where a walk turns back.**  The byte behind the last address can be listed,
but not asked for: its offset is an address only after it has wrapped around,
and what is read there is the first byte.
-/

namespace StackMachine.Listing

variable {origin : UInt16} {bytes : List UInt8} {line : Line}

/-- A line shows an item and at least one byte.  What holds of the texts of all
items holds of all lines by this. -/
theorem item_of_mem_lines (h : line ∈ lines origin bytes) :
    ∃ item : Item, line.text = item.text ∧ line.raw ≠ [] := by
  obtain ⟨before, after, hsplit⟩ := List.append_of_mem h
  obtain ⟨item, hitem, htext, hraw⟩ := line_of_split hsplit
  refine ⟨item, htext, List.ne_nil_of_length_pos ?_⟩
  rw [hraw, List.length_take_of_le (length_le_of_item? hitem)]
  exact item.length_pos

/-- Glyphs, commas and blanks are all that the text of a line is written with. -/
theorem notMem_text_of_mem_lines (h : line ∈ lines origin bytes) {c : Char}
    (hglyph : isGlyph c = false) (hcomma : c ≠ ',') (hblank : c ≠ ' ') :
    c ∉ line.text.toList := by
  obtain ⟨item, htext, -⟩ := item_of_mem_lines h
  rw [htext]
  exact item.notMem_text hglyph hcomma hblank

/-- Every row of a listing is read back as the line that it shows. -/
theorem ofRow?_of_mem_lines (h : line ∈ lines origin bytes) :
    Line.ofRow? line.shown = some line := by
  obtain ⟨item, htext, hraw⟩ := item_of_mem_lines h
  have hsemicolon : ';' ∉ line.text.toList :=
    notMem_text_of_mem_lines h (by decide) (by decide) (by decide)
  refine ofRow?_shown hsemicolon ?_ hraw
  rw [htext]
  exact item.endsInGlyph_text

/-- A listing has a row for each line, whatever bytes are listed. -/
theorem rows_text_lines (origin : UInt16) (bytes : List UInt8) :
    rows (text origin bytes) =
      headingRows ++ (lines origin bytes).map Line.shown ++ [""] := by
  refine rows_text fun line hline => newline_notMem_shown ?_
  exact notMem_text_of_mem_lines hline (by decide) (by decide) (by decide)

/-- The lines are read off the text of a listing, behind the heading.  So
nothing but the heading is lost with the lines themselves. -/
theorem listed_lines_read_back (origin : UInt16) (bytes : List UInt8) :
    ((rows (text origin bytes)).drop headingRows.length).filterMap Line.ofRow? =
      lines origin bytes := by
  have hlast : [""].filterMap Line.ofRow? = [] := rfl
  have hread : ∀ line ∈ lines origin bytes, (Line.ofRow? ∘ Line.shown) line =
      some line := by
    intro line hline
    rw [Function.comp_apply, ofRow?_of_mem_lines hline]
  rw [rows_text_lines, List.append_assoc, List.drop_left, List.filterMap_append,
    hlast, List.append_nil, List.filterMap_map, List.filterMap_congr hread]
  exact List.filterMap_some

/-- A listing loses nothing of the bytes.  It has a row for each line, and the
lines are read back from it; together they show exactly the bytes.  A line is at
the address behind the bytes above it, fits its columns, can be cut into them
again and shows data where no instruction can be read.  In memory, there is
something to read at the addresses inside it, which is a line if one begins
there; if every byte has an address, a walk from one of them on reads the lines
of the bytes there. -/
theorem listing_loses_nothing :
    (∀ (origin : UInt16) (bytes : List UInt8),
      rows (text origin bytes) =
        headingRows ++ (lines origin bytes).map Line.shown ++ [""] ∧
        ((rows (text origin bytes)).drop headingRows.length).filterMap Line.ofRow? =
          lines origin bytes ∧
        (lines origin bytes).flatMap Line.raw = bytes ∧
        ∀ before line after, lines origin bytes = before ++ line :: after →
          line.address = origin + UInt16.ofNat (before.flatMap Line.raw).length ∧
            line.text.length ≤ 24 ∧ '\n' ∉ line.text.toList ∧
            ';' ∉ line.text.toList ∧
            Line.ofRow? line.shown = some line ∧
            ((∃ byte, line.text = "db " ++ Hex.byte byte) ↔
              StartsData (bytes.drop (before.flatMap Line.raw).length))) ∧
      ∀ (m : Memory) (address : UInt16),
        ((∃ reading, atAddress m address = .ok reading) ↔ address.toNat < m.size) ∧
          (∀ before line after,
            lines address (m.bytes.toList.drop address.toNat) =
              before ++ line :: after →
              address.toNat + (before.flatMap Line.raw).length < 65536 →
                atAddress m line.address = .ok line.reading) ∧
          (m.size ≤ 65536 → ∀ items, Walk m address.toNat items ↔
            items = (lines address (m.bytes.toList.drop address.toNat)).map
              Line.reading) := by
  refine ⟨fun origin bytes =>
    ⟨rows_text_lines origin bytes, listed_lines_read_back origin bytes,
    flatMap_raw_lines origin bytes, fun before line after hsplit => ?_⟩,
    fun m address =>
      ⟨atAddress_eq_ok_iff m address, fun _ _ _ => atAddress_of_split,
      fun hsize => walk_iff hsize address address.toNat⟩⟩
  have hmem : line ∈ lines origin bytes := by
    rw [hsplit]
    exact List.mem_append_right _ List.mem_cons_self
  obtain ⟨item, hitem, htext, -⟩ := line_of_split hsplit
  refine ⟨(lines_of_split hsplit).1, ?_,
    notMem_text_of_mem_lines hmem (by decide) (by decide) (by decide),
    notMem_text_of_mem_lines hmem (by decide) (by decide) (by decide),
    ofRow?_of_mem_lines hmem, ?_⟩
  · rw [htext, ← String.length_toList]
    exact item.length_text_le
  · rw [htext, item.text_eq_db_iff, item?_eq_data_iff hitem]

/-! ### A memory without enough addresses -/

/-- A memory with one byte more than there are addresses; it is the
code of a return. -/
def wide : Memory :=
  (Memory.zeroed 65537).setByte 65536 0x60
    (Nat.le_of_eq (Memory.size_zeroed 65537).symm)

theorem size_wide : wide.size = 65537 := by
  rw [wide, Memory.size_setByte, Memory.size_zeroed]

theorem readByte_wide {offset : Nat} (h : offset < 65536) :
    wide.readByte offset = .ok 0 := by
  refine (Memory.readByte_setByte_of_ne _ _ _ (Nat.ne_of_lt h).symm).trans ?_
  exact Memory.readByte_zeroed (Nat.lt_succ_of_lt h)

/-- The last two bytes are a zero and the code of the return.  Only the first of
them has an address. -/
theorem drop_wide : wide.bytes.toList.drop 65535 = [0x00, 0x60] := by
  have hlast : wide.readByte (65535 + 1) = .ok 0x60 :=
    Memory.readByte_setByte_self ..
  have hlength : (wide.bytes.toList.drop 65535).length = 2 := by
    rw [List.length_drop, Array.length_toList, ← Memory.size, size_wide]
  have hwindow : wide.window 65535 2 = wide.bytes.toList.drop 65535 := by
    rw [Memory.window, Array.toList_extract, List.extract_eq_take_drop,
      Nat.add_sub_cancel_left, ← hlength, List.take_length]
  have hend : wide.window (65535 + 1 + 1) 0 = [] := by
    rw [← List.length_eq_zero_iff, Memory.length_window, Nat.zero_min]
  rw [← hwindow, Memory.window_of_readByte (readByte_wide (by decide)) 1,
    Memory.window_of_readByte hlast 0, hend]

/-- A zero is data, whatever follows. -/
theorem item?_zero (rest : List UInt8) :
    item? (0x00 :: rest) = some (.data 0x00) := by
  refine item?_of_none (Instruction.decode?_eq_none.2 fun op hop => ?_)
  exact absurd hop (by cases op <;> decide)

/-- A listing of the two bytes goes on at address zero with the second. -/
theorem lines_wide :
    lines 65535 [0x00, 0x60] =
      [⟨65535, "db 0x00", [0x00]⟩, ⟨0, "ret", [0x60]⟩] := by
  have hret : item? [0x60] = some (.instruction .ret) := rfl
  rw [lines_cons (item?_zero [0x60])]
  refine congrArg₂ List.cons rfl ((lines_cons hret).trans ?_)
  exact congrArg₂ List.cons rfl (lines_nil _)

/-- At the first address there is data, and not the return that the
listing shows there. -/
theorem atAddress_wide : atAddress wide 0 = .ok ("db 0x00", 1) := by
  have hitem : item? (wide.bytes.toList.drop (0 : UInt16).toNat) =
      some (.data 0x00) := by
    rw [← item?_window_eq,
      Memory.window_of_readByte (readByte_wide (by decide)) 4, item?_zero]
  exact atAddress_of_item hitem

/-- Of the memory from its last address on, a walk does not read the lines. -/
theorem wide_walk_turns_back :
    ¬ ∀ (m : Memory) (address : UInt16), Walk m address.toNat
      ((lines address (m.bytes.toList.drop address.toNat)).map Line.reading) := by
  intro hall
  have hwalk :
      Walk wide 65535
        ((lines 65535 (wide.bytes.toList.drop 65535)).map Line.reading) :=
    hall wide 65535
  rw [drop_wide, lines_wide] at hwalk
  cases hwalk with
  | item _ _ hrest =>
    cases hrest with
    | item _ hread _ =>
      have hback : atAddress wide 0 = .ok ("ret", 1) := hread
      rw [atAddress_wide] at hback
      exact absurd (congrArg Prod.fst (Except.ok.inj hback)) (by decide)

end StackMachine.Listing
