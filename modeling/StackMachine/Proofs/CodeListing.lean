import StackMachine.Listing
import StackMachine.Proofs.Code
import StackMachine.Proofs.InstructionText

/-!
# The listing of emitted code

A listing of code that an assembler has emitted shows the instructions that were
emitted, each on a line of its own, and no other instructions are listed with
the same texts.

## Main definitions

* `Assembler.begun` — an assembler at the start of a segment
* `Listing.linesOfCode` — the lines that show instructions, one for each
* `Listing.rows` — a text cut at the ends of its lines

## Main statements

* `Listing.lines_encodeAll` — the code of instructions is listed as these
  instructions
* `Listing.rows_text` — a listing is its heading and, row by row, what its lines
  show
* `Listing.emitted_code_is_listed` — what the listing of a segment says, and
  that no two lists of instructions are listed alike

## Design notes

**The listing stays in step.**  An instruction is decoded from the front of
whatever follows it (`Instruction.decode?_encode`), so the next line starts
where the next instruction does, and no operand is taken for an opcode.

**The end of a line is in no line.**  Numerals, names and commas are all that a
line of code shows. So the rows of a listing are its lines, which a reader who
has only the text can tell apart.
-/

namespace StackMachine

open Instruction (encodeAll encodeAll_cons)

/-- An assembler at the start of a segment, as it is before any code and
behind every `org`. -/
def Assembler.begun (finished : List Segment) (origin : UInt16) : Assembler :=
  ⟨finished, ⟨origin, #[]⟩⟩

theorem Assembler.emitAll_begun (finished : List Segment) (origin : UInt16)
    (instructions : List Instruction) :
    ((begun finished origin).emitAll instructions).current.bytes.toList =
      encodeAll instructions := by
  rw [emitAll_eq_bytes, ((begun finished origin).current_bytes _).2.2]
  rfl

namespace Listing

/-! ### Items -/

namespace Item

theorem toList_text_data (byte : UInt8) :
    (data byte).text.toList =
      ['d', 'b', ' '] ++ (['0', 'x'] ++ Hex.fixed 2 byte.toNat) := by
  rw [text, Hex.byte, String.toList_append, String.toList_append, Hex.toList_pair]
  rfl

/-- Glyphs, commas and blanks are all that an item is written with.  So no text
ends its row or reaches into the next column. -/
theorem notMem_text (item : Item) {c : Char} (hglyph : isGlyph c = false)
    (hcomma : c ≠ ',') (hblank : c ≠ ' ') : c ∉ item.text.toList := by
  cases item with
  | instruction i => exact i.notMem_text hglyph hcomma hblank
  | data byte =>
    have hdigits : (['0', 'x'] ++ Hex.fixed 2 byte.toNat).all isGlyph = true := by
      rw [List.all_append, Hex.glyphs_fixed]
      rfl
    rw [toList_text_data, List.mem_append]
    rintro (hmem | hmem)
    · rcases List.mem_append.1 (show c ∈ ['d', 'b'] ++ [' '] from hmem) with
        hmem | hmem
      · exact notMem_of_glyphs (by decide) hglyph hmem
      · exact hblank (List.mem_singleton.1 hmem)
    · exact notMem_of_glyphs hdigits hglyph hmem

end Item

/-! ### Lines -/

/-- The code of an instruction is listed as that instruction, whatever follows. -/
theorem item?_encode (i : Instruction) (rest : List UInt8) :
    item? (i.encode ++ rest) = some (.instruction i) := by
  have hdecode := i.decode?_encode rest
  rw [Instruction.encode, List.cons_append] at hdecode ⊢
  rw [item?, hdecode]

/-- The code of an instruction by itself. -/
theorem first_encode (i : Instruction) :
    first i.encode = (i.text, i.opcode.length) := by
  rw [first, ← List.append_nil i.encode, item?_encode]
  rfl

/-- The lines that show instructions, one for each: the address is as far behind
the first as there are bytes before the instruction, the text is that of its
bytes alone, and these are the bytes. -/
def linesOfCode (origin : UInt16) (instructions : List Instruction) : List Line :=
  instructions.mapIdx fun k i =>
    ⟨origin + UInt16.ofNat (encodeAll (instructions.take k)).length,
      (first i.encode).1, i.encode⟩

/-- The lines of code, one instruction at a time.  A line has the address
behind the one before. -/
theorem linesOfCode_cons (origin : UInt16) (i : Instruction)
    (instructions : List Instruction) :
    linesOfCode origin (i :: instructions) =
      ⟨origin, i.text, i.encode⟩ ::
        linesOfCode (origin + UInt16.ofNat i.opcode.length) instructions := by
  rw [linesOfCode, List.mapIdx_cons, first_encode]
  refine congrArg₂ List.cons ?_ ?_
  · exact congrArg (Line.mk · i.text i.encode) (UInt16.add_zero origin)
  · refine congrArg (instructions.mapIdx ·) ?_
    funext k j
    rw [List.take_succ_cons, encodeAll_cons, List.length_append, i.length_encode,
      UInt16.ofNat_add, UInt16.add_assoc]

/-- The code of instructions is listed as these instructions.  No line takes
bytes of two of them, as decoding stops where encoding did. -/
theorem lines_encodeAll (origin : UInt16) (instructions : List Instruction) :
    lines origin (encodeAll instructions) = linesOfCode origin instructions := by
  induction instructions generalizing origin with
  | nil => exact lines_nil origin
  | cons i instructions ih =>
    have hitem := item?_encode i (encodeAll instructions)
    have hlength := i.length_encode
    have hcode : i.encode ++ encodeAll instructions =
        i.opcode.byte :: (i.operands.flatMap Operand.encode ++
          encodeAll instructions) := rfl
    rw [encodeAll_cons, linesOfCode_cons, ← ih]
    rw [hcode] at hitem ⊢
    rw [lines_cons hitem, ← hcode]
    simp only [Item.length, Item.text, ← hlength, List.take_left, List.drop_left]

/-- The lines of code show the texts of its instructions. -/
theorem texts_linesOfCode (origin : UInt16) (instructions : List Instruction) :
    (linesOfCode origin instructions).map Line.text =
      instructions.map Instruction.text := by
  induction instructions generalizing origin with
  | nil => rfl
  | cons i instructions ih =>
    rw [linesOfCode_cons, List.map_cons, ih, List.map_cons]

/-! ### Rows -/

/-- What a line shows before its end. -/
def Line.shown (line : Line) : String :=
  Hex.word line.address ++ ": " ++ column line.text ++ " ; " ++
    " ".intercalate (line.raw.map Hex.pair)

/-- The rows of the heading. -/
def headingRows : List String := ["; vm16 disassembly", "; -----------------", ""]

/-- A text cut at the ends of its lines; behind the last end there may be
nothing. -/
def rows (text : String) : List String :=
  (text.toList.splitOn '\n').map String.ofList

/-- A listing, character by character: its rows, each with its end. -/
theorem toList_text (origin : UInt16) (bytes : List UInt8) :
    (text origin bytes).toList =
      (headingRows ++ (lines origin bytes).map Line.shown).flatMap
        (·.toList ++ ['\n']) := by
  have hlines : ∀ (lines : List Line) (before : String),
      (lines.foldl (fun text line => text ++ line.render) before).toList =
        before.toList ++ (lines.map Line.shown).flatMap (·.toList ++ ['\n']) := by
    intro lines
    induction lines with
    | nil => exact fun before => (List.append_nil _).symm
    | cons line lines ih =>
      intro before
      have hrender : line.render.toList = line.shown.toList ++ ['\n'] :=
        String.toList_append
      rw [List.foldl_cons, ih, String.toList_append, hrender, List.map_cons,
        List.flatMap_cons, List.append_assoc]
  rw [text, hlines, List.flatMap_append]
  rfl

/-- Lines that each have an end are rows with ends between them and nothing
behind the last.  The last row of a listing is empty for this reason. -/
theorem flatMap_end (rows : List String) :
    rows.flatMap (·.toList ++ ['\n']) =
      ['\n'].intercalate ((rows ++ [""]).map String.toList) := by
  induction rows with
  | nil => rfl
  | cons row rows ih =>
    rw [List.flatMap_cons, ih, List.cons_append, List.map_cons]
    cases rows with
    | nil => exact List.intercalate_cons_cons.symm
    | cons next rows => exact List.intercalate_cons_cons.symm

/-- A listing is its heading and, row by row, what its lines show.  That the
rows can be told apart rests on no line showing an end. -/
theorem rows_text {origin : UInt16} {bytes : List UInt8}
    (h : ∀ line ∈ lines origin bytes, '\n' ∉ line.shown.toList) :
    rows (text origin bytes) =
      headingRows ++ (lines origin bytes).map Line.shown ++ [""] := by
  have hrows : ∀ row ∈ headingRows ++ (lines origin bytes).map Line.shown ++ [""],
      '\n' ∉ row.toList := by
    simp only [List.forall_mem_append]
    refine ⟨⟨by decide, fun row hrow => ?_⟩, by decide⟩
    obtain ⟨line, hline, rfl⟩ := List.mem_map.1 hrow
    exact h line hline
  rw [rows, toList_text, flatMap_end, List.splitOn_intercalate, List.map_map]
  · exact (List.map_congr_left fun row _ => String.ofList_toList).trans
      (List.map_id _)
  · intro row hrow
    obtain ⟨row, hmem, rfl⟩ := List.mem_map.1 hrow
    exact hrows row hmem
  · simp

theorem newline_notMem_column {text : String} (h : '\n' ∉ text.toList) :
    '\n' ∉ (column text).toList := by
  rw [column, String.toList_ofList, List.rightpad, List.mem_append,
    List.mem_replicate]
  rintro (hmem | ⟨-, hblank⟩)
  · exact h hmem
  · exact absurd hblank (by decide)

/-- A line is one row if its text is. -/
theorem newline_notMem_shown {line : Line} (h : '\n' ∉ line.text.toList) :
    '\n' ∉ line.shown.toList := by
  have hraw : '\n' ∉ (" ".intercalate (line.raw.map Hex.pair)).toList := by
    rw [String.toList_intercalate, List.map_map]
    refine notMem_intercalate (by decide) fun digits hdigits => ?_
    obtain ⟨byte, -, rfl⟩ := List.mem_map.1 hdigits
    refine notMem_of_glyphs (c := '\n') ?_ (by decide)
    rw [Function.comp, Hex.toList_pair, Hex.glyphs_fixed]
  simp only [Line.shown, String.toList_append, List.mem_append, not_or]
  exact ⟨⟨⟨⟨Hex.notMem_word _ (by decide), by decide⟩,
    newline_notMem_column h⟩, by decide⟩, hraw⟩

/-! ### Code -/

/-- A column shows the same characters as its text, blanks apart.  As
instructions can be told from their texts without blanks, the column
tells them as well. -/
theorem condensed_column (text : String) :
    (column text).toList.filter (· != ' ') = text.toList.filter (· != ' ') := by
  rw [column, String.toList_ofList, List.rightpad, List.filter_append,
    List.filter_replicate]
  exact List.append_nil _

/-- Instructions with the same columns are the same. -/
theorem eq_of_columns {instructions others : List Instruction}
    (h : instructions.map (column ·.text) = others.map (column ·.text)) :
    instructions = others := by
  refine (List.map_inj_right fun i j hij => Instruction.condensed_inj ?_).1 h
  rw [Instruction.condensed, ← condensed_column, hij, condensed_column,
    Instruction.condensed]

/-- Code that was emitted as one segment is listed, behind the heading, on one
row for each instruction, in order, with the address, the text and the bytes of
that instruction; and from the column of texts, as from the texts themselves,
one can tell which instructions they were. -/
theorem emitted_code_is_listed (finished : List Segment) (start origin : UInt16)
    (instructions : List Instruction) :
    rows (text origin
        ((Assembler.begun finished start).emitAll
          instructions).current.bytes.toList) =
      headingRows ++ (linesOfCode origin instructions).map Line.shown ++ [""] ∧
    ∀ (origin' : UInt16) (others : List Instruction),
      ((linesOfCode origin instructions).map Line.text =
        (linesOfCode origin' others).map Line.text ↔ instructions = others) ∧
      ((linesOfCode origin instructions).map (column ·.text) =
        (linesOfCode origin' others).map (column ·.text) ↔
          instructions = others) := by
  have hcolumns : ∀ (origin : UInt16) (instructions : List Instruction),
      (linesOfCode origin instructions).map (column ·.text) =
        instructions.map (column ·.text) := by
    intro origin instructions
    have htexts :=
      congrArg (List.map column) (texts_linesOfCode origin instructions)
    rwa [List.map_map, List.map_map] at htexts
  refine ⟨?_, fun origin' others => ⟨?_, ?_⟩⟩
  · rw [Assembler.emitAll_begun, rows_text, lines_encodeAll]
    intro line hline
    rw [lines_encodeAll] at hline
    have htext := List.mem_map_of_mem (f := Line.text) hline
    rw [texts_linesOfCode] at htext
    obtain ⟨i, -, hi⟩ := List.mem_map.1 htext
    refine newline_notMem_shown ?_
    rw [← hi]
    exact i.newline_notMem_text
  · rw [texts_linesOfCode, texts_linesOfCode]
    exact List.map_inj_right fun i j => Instruction.text_inj
  · rw [hcolumns, hcolumns]
    exact ⟨eq_of_columns, fun h => by rw [h]⟩

end Listing

end StackMachine
