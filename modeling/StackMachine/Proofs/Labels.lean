import Mathlib.Data.List.Induction
import StackMachine.Proofs.Loading

/-!
# Labels and loading

An assembler can be asked at any time for the address at which the next byte
will stand.  That address is computed in sixteen bits; where the byte goes when
the program is loaded, without a bound.  The two are the same wherever it
matters.

## Main definitions

* `Statement`, `Assembler.assembled` — what an assembler is told, and what it
  makes of it
* `Assembler.lastOrigin`, `Assembler.sinceOrigin` — where the segment begins,
  and how far it goes
* `Assembler.emissions`, `Assembler.labelled` — every byte emitted, with the
  address reported before it

## Main statements

* `Assembler.here_assembled` — the address that is reported
* `Assembler.labelled_eq_placed` — bytes are labelled with the addresses they
  are placed at
* `Machine.labels_and_loading_agree` — where the bytes are when a program has
  been loaded, and what happens if it cannot be

## Design notes

**A label may be wrong only where nothing can be loaded.**  A segment that runs
over the end of the address space has labels that start again at zero, while its
bytes are placed further on.  No memory of at most 65536 bytes has room for
them, and machines are made with no other.
-/

namespace StackMachine

/-- What an assembler is told. -/
inductive Statement where
  /-- A new segment begins at an address. -/
  | org (origin : UInt16)
  /-- A byte follows. -/
  | byte (value : UInt8)
  /-- A word follows. -/
  | word (value : UInt16)
  /-- An instruction follows. -/
  | instruction (i : Instruction)
deriving DecidableEq, Repr

/-- The bytes that a statement stands for. -/
def Statement.code : Statement → List UInt8
  | org _ => []
  | byte value => [value]
  | word value => Word.toBytes value
  | instruction i => i.encode

/-- The origin of the segment that code is added to behind a statement. -/
def Statement.originAfter (origin : UInt16) : Statement → UInt16
  | org origin => origin
  | byte _ | word _ | instruction _ => origin

/-- The bytes of that segment behind a statement. -/
def Statement.countAfter (count : Nat) : Statement → Nat
  | org _ => 0
  | statement => count + statement.code.length

namespace Assembler

/-- The assembler behind a statement. -/
def assemble (asm : Assembler) : Statement → Assembler
  | .org origin => asm.org origin
  | .byte value => asm.byte value
  | .word value => asm.word value
  | .instruction i => asm.emit i

/-- The assembler behind statements, from the start on. -/
def assembled (statements : List Statement) : Assembler :=
  statements.foldl assemble start

/-- The origin of the last segment that was begun; the first begins at zero. -/
def lastOrigin (statements : List Statement) : UInt16 :=
  statements.foldl Statement.originAfter 0

/-- How many bytes were emitted since the last segment was begun. -/
def sinceOrigin (statements : List Statement) : Nat :=
  statements.foldl Statement.countAfter 0

/-- The bytes of a statement, each with the address reported just
before it is emitted. -/
def emissions (asm : Assembler) (statement : Statement) : List (UInt16 × UInt8) :=
  statement.code.mapIdx fun k byte =>
    ((asm.bytes (statement.code.take k)).here, byte)

/-- The bytes of statements, each with the address reported just
before it is emitted. -/
def labelled (statements : List Statement) : List (UInt16 × UInt8) :=
  (statements.mapIdx fun k statement =>
    emissions (assembled (statements.take k)) statement).flatten

/-! ### One statement -/

/-- A statement begins a segment or adds its bytes.  Nothing else can
happen to an assembler. -/
theorem assemble_eq (asm : Assembler) (statement : Statement) :
    (∃ origin, statement = .org origin) ∨
      asm.assemble statement = asm.bytes statement.code := by
  cases statement with
  | org origin => exact .inl ⟨origin, rfl⟩
  | byte | word | instruction => exact .inr rfl

/-- What all segments hold, each byte with the offset that it goes to. -/
def placed (asm : Assembler) : List (Nat × UInt8) :=
  asm.segments.flatMap Segment.placed

/-- What is placed are the bytes of the finished segments, in order, and then
those of the one at hand. -/
theorem placed_eq (asm : Assembler) :
    asm.placed = asm.finished.reverse.flatMap Segment.placed ++
      asm.current.placed := by
  rw [placed, segments, List.flatMap_append, List.flatMap_singleton]

theorem placed_org (asm : Assembler) (origin : UInt16) :
    (asm.org origin).placed = asm.placed := by
  have hnew : (asm.org origin).current.placed = [] := rfl
  rw [placed_eq, hnew, List.append_nil, placed, segments]
  exact congrArg _ List.reverse_cons

theorem placed_bytes (asm : Assembler) (values : List UInt8) :
    (asm.bytes values).placed = asm.placed ++
      values.mapIdx fun k byte =>
        (asm.current.origin.toNat + (k + asm.current.bytes.size), byte) := by
  obtain ⟨hfinished, horigin, hbytes⟩ := asm.current_bytes values
  rw [placed_eq, placed_eq, hfinished, Segment.placed, horigin, hbytes,
    List.mapIdx_append, Array.length_toList, List.append_assoc]
  rfl

/-- Segments without code place nothing, so it does no harm that they are left
out of the program. -/
theorem placed_build (asm : Assembler) :
    asm.build.segments.flatMap Segment.placed = asm.placed := by
  rw [build, placed]
  induction asm.segments with
  | nil => rfl
  | cons segment segments ih =>
    cases hempty : segment.bytes.isEmpty with
    | true =>
      have hnone : segment.placed = [] := by
        rw [Segment.placed, Array.isEmpty_iff.1 hempty]
        rfl
      rw [List.filter_cons_of_neg (by simp [hempty]), ih, List.flatMap_cons,
        hnone, List.nil_append]
    | false =>
      rw [List.filter_cons_of_pos (by simp [hempty]), List.flatMap_cons, ih,
        List.flatMap_cons]

theorem origin_bytes (asm : Assembler) (values : List UInt8) :
    (asm.bytes values).current.origin = asm.current.origin :=
  (asm.current_bytes values).2.1

theorem size_bytes (asm : Assembler) (values : List UInt8) :
    (asm.bytes values).current.bytes.size =
      asm.current.bytes.size + values.length := by
  obtain ⟨-, -, hbytes⟩ := asm.current_bytes values
  rw [← Array.length_toList, hbytes, List.length_append, Array.length_toList]

theorem here_bytes (asm : Assembler) (values : List UInt8) :
    (asm.bytes values).here =
      UInt16.ofNat (asm.current.origin.toNat +
        (values.length + asm.current.bytes.size)) := by
  rw [here_eq, origin_bytes, size_bytes, Nat.add_comm values.length]

/-- Each byte is labelled with the offset that it is placed at, as far
as it is an address.  Beyond the last address labels begin again at
zero, and offsets do not. -/
theorem emissions_eq (asm : Assembler) (statement : Statement) :
    emissions asm statement = statement.code.mapIdx fun k byte =>
      (UInt16.ofNat (asm.current.origin.toNat +
        (k + asm.current.bytes.size)), byte) := by
  refine List.mapIdx_eq_mapIdx_iff.2 fun k hk => ?_
  rw [here_bytes, List.length_take, Nat.min_eq_left (Nat.le_of_lt hk)]

/-! ### Labels and offsets -/

/-- An offset as an address. -/
def label (entry : Nat × UInt8) : UInt16 × UInt8 := (UInt16.ofNat entry.1, entry.2)

section Labels

variable {placed : List (Nat × UInt8)}
  {before after : List (UInt16 × UInt8)} {a : UInt16}
  {byte : UInt8}

/-- No byte is placed at an offset whose address is no label. -/
theorem lastPlaced_eq_none {offset : Nat}
    (h : ∀ byte, (UInt16.ofNat offset, byte) ∉ placed.map label) :
    lastPlaced placed offset = none := by
  refine List.lookup_eq_none_iff.2 fun ⟨place, byte⟩ hentry => bne_iff_ne.2 ?_
  rintro rfl
  exact h byte (List.mem_map.2 ⟨_, List.mem_reverse.1 hentry, rfl⟩)

/-- Where all offsets are addresses, the byte placed last is the last with its
label. -/
theorem lastPlaced_eq_some (hbound : ∀ entry ∈ placed, entry.1 < 65536)
    (hlabels : placed.map label = before ++ (a, byte) :: after)
    (hlast : ∀ byte, (a, byte) ∉ after) :
    lastPlaced placed a.toNat = some byte := by
  obtain ⟨earlier, rest, rfl, -, hrest⟩ := List.map_eq_append_iff.1 hlabels
  obtain ⟨⟨offset, _⟩, later, rfl, hentry, rfl⟩ := List.map_eq_cons_iff.1 hrest
  cases hentry
  have hoffset : (UInt16.ofNat offset).toNat = offset :=
    UInt16.toNat_ofNat_of_lt'
      (hbound _ (List.mem_append_right _ List.mem_cons_self))
  rw [hoffset, ← List.singleton_append, lastPlaced_append, lastPlaced_append,
    lastPlaced_eq_none hlast]
  simp [lastPlaced]

/-- What was placed last was placed. -/
theorem mem_of_lastPlaced {place : Nat} (h : lastPlaced placed place = some byte) :
    (place, byte) ∈ placed := by
  obtain ⟨later, earlier, hplaced, -⟩ := List.lookup_eq_some_iff.1 h
  rw [← List.mem_reverse, hplaced]
  exact List.mem_append_right _ List.mem_cons_self

end Labels

/-! ### Statements -/

/-- Statements are assembled one after another.  The inductions take the last
one off, as labels depend on all that came before. -/
theorem assembled_concat (statements : List Statement) (statement : Statement) :
    assembled (statements ++ [statement]) =
      (assembled statements).assemble statement :=
  List.foldl_append

theorem lastOrigin_concat (statements : List Statement) (statement : Statement) :
    lastOrigin (statements ++ [statement]) =
      statement.originAfter (lastOrigin statements) :=
  List.foldl_append

theorem sinceOrigin_concat (statements : List Statement) (statement : Statement) :
    sinceOrigin (statements ++ [statement]) =
      statement.countAfter (sinceOrigin statements) :=
  List.foldl_append

/-- The labels of one more statement are added to those before. -/
theorem labelled_concat (statements : List Statement) (statement : Statement) :
    labelled (statements ++ [statement]) =
      labelled statements ++ emissions (assembled statements) statement := by
  rw [labelled, List.mapIdx_concat, List.take_left, List.flatten_concat]
  refine congrArg (List.flatten · ++ _) (List.mapIdx_eq_mapIdx_iff.2 fun k hk => ?_)
  rw [List.take_append_of_le_length (Nat.le_of_lt hk)]

/-- The segment that code is added to began at the last origin and
holds what came since. -/
theorem current_assembled (statements : List Statement) :
    (assembled statements).current.origin = lastOrigin statements ∧
      (assembled statements).current.bytes.size = sinceOrigin statements := by
  induction statements using List.reverseRecOn with
  | nil => exact ⟨rfl, rfl⟩
  | append_singleton statements statement ih =>
    obtain ⟨horigin, hsize⟩ := ih
    rw [assembled_concat, lastOrigin_concat, sinceOrigin_concat, ← horigin, ← hsize]
    cases statement with
    | org origin => exact ⟨rfl, rfl⟩
    | byte value => exact ⟨origin_bytes _ [value], size_bytes _ [value]⟩
    | word value =>
      exact ⟨origin_bytes _ (Word.toBytes value), size_bytes _ (Word.toBytes value)⟩
    | instruction i => exact ⟨origin_bytes _ i.encode, size_bytes _ i.encode⟩

/-- The address reported is the origin of the segment and as many
bytes as came since. -/
theorem here_assembled (statements : List Statement) :
    (assembled statements).here =
      lastOrigin statements + UInt16.ofNat (sinceOrigin statements) := by
  obtain ⟨horigin, hsize⟩ := current_assembled statements
  rw [here, horigin, hsize]

/-- Bytes are labelled with the offsets that they are placed at, as far as these
are addresses.  Here the two accounts of an assembly meet. -/
theorem labelled_eq_placed (statements : List Statement) :
    labelled statements = (assembled statements).placed.map label := by
  induction statements using List.reverseRecOn with
  | nil => rfl
  | append_singleton statements statement ih =>
    rw [labelled_concat, assembled_concat, ih]
    rcases assemble_eq (assembled statements) statement with
      ⟨origin, rfl⟩ | hassemble
    · rw [assemble, placed_org]
      exact List.append_nil _
    · rw [hassemble, placed_bytes, List.map_append, emissions_eq,
        List.mapIdx_eq_zipIdx_map, List.mapIdx_eq_zipIdx_map, List.map_map]
      rfl

example : labelled [.org 65535, .word 0x0102, .org 65535, .byte 3] =
    [(65535, 1), (0, 2), (65535, 3)] := rfl

end Assembler

namespace Segment

/-- The bytes of a segment that fits are placed inside memory. -/
theorem lt_of_mem_placed {segment : Segment} {entry : Nat × UInt8} {size : Nat}
    (hfits : segment.Fits size) (h : entry ∈ segment.placed) : entry.1 < size := by
  obtain ⟨k, hk, rfl⟩ := List.mem_mapIdx.1 h
  exact Nat.lt_of_lt_of_le (Nat.add_lt_add_left hk _) hfits

end Segment

/-- Memories of one size with the same byte at some offset are read alike there,
and fail alike outside. -/
theorem Memory.readByte_congr {m m' : Memory} {offset : Nat}
    (hsize : m'.size = m.size) (h : m'.contents offset = m.contents offset) :
    m'.readByte offset = m.readByte offset := by
  rcases Nat.lt_or_ge offset m.size with hfits | hfits
  · rw [readByte_of_le (by rwa [hsize]), readByte_of_le hfits, h]
  · rw [readByte, readByte, dif_neg (by omega), dif_neg (by omega), hsize]

namespace Machine

open Assembler

variable {asm : Assembler} {m m' : Machine}

/-- The outcome of loading what was assembled, byte by byte: the byte placed
last, or else what was there. -/
theorem contents_of_loadProgram (h : loadProgram asm.build m = .ok () m')
    (a : Nat) :
    m'.memory.contents a = (lastPlaced asm.placed a).getD
      (m.memory.contents a) := by
  obtain ⟨hfits, rfl⟩ := loadProgram_eq_ok.1 h
  rw [memory_mapMemory, Memory.contents_withSegments hfits, placed_build]

/-- What is loaded lies inside memory. -/
theorem lt_of_loadProgram (h : loadProgram asm.build m = .ok () m') :
    ∀ entry ∈ asm.placed, entry.1 < m.memory.size := by
  intro entry hentry
  rw [← placed_build] at hentry
  obtain ⟨segment, hsegment, hentry⟩ := List.mem_flatMap.1 hentry
  exact Segment.lt_of_mem_placed ((loadProgram_eq_ok.1 h).1 segment hsegment) hentry

/-- Every byte that was emitted is at its label, unless a later one has the
same.  In a memory of all addresses or fewer, no byte is placed beyond them. -/
theorem readByte_label {statements : List Statement}
    {before after : List (UInt16 × UInt8)} {a : UInt16} {byte : UInt8}
    (hmax : m.memory.size ≤ 65536)
    (h : loadProgram (assembled statements).build m = .ok () m')
    (hlabels : labelled statements = before ++ (a, byte) :: after)
    (hlast : ∀ later, (a, later) ∉ after) :
    m'.memory.readByte a.toNat = .ok byte := by
  rw [labelled_eq_placed] at hlabels
  have hinside := lt_of_loadProgram h
  have hbound : ∀ entry ∈ (assembled statements).placed, entry.1 < 65536 :=
    fun entry hentry => Nat.lt_of_lt_of_le (hinside entry hentry) hmax
  have hplaced := lastPlaced_eq_some hbound hlabels hlast
  have hfits : a.toNat < m.memory.size := hinside _ (mem_of_lastPlaced hplaced)
  rw [← (frame_of_loadProgram h).2] at hfits
  rw [Memory.readByte_of_le hfits, contents_of_loadProgram h, hplaced]
  rfl

/-- A byte at an offset whose address is no label is as it was. -/
theorem readByte_of_no_label {statements : List Statement} {offset : Nat}
    (h : loadProgram (assembled statements).build m = .ok () m')
    (hnone : ∀ byte, (UInt16.ofNat offset, byte) ∉ labelled statements) :
    m'.memory.readByte offset = m.memory.readByte offset := by
  rw [labelled_eq_placed] at hnone
  refine Memory.readByte_congr (frame_of_loadProgram h).2 ?_
  rw [contents_of_loadProgram h, lastPlaced_eq_none hnone]
  rfl

/-- A program is loaded exactly if its segments with code fit.  One without code
may begin anywhere. -/
theorem loadProgram_build_eq_ok_iff (asm : Assembler) (m : Machine) :
    (∃ m', loadProgram asm.build m = .ok () m') ↔
      ∀ segment ∈ asm.segments, segment.bytes.size ≠ 0 →
        segment.Fits m.memory.size := by
  have hbuild : (∀ segment ∈ asm.build.segments, segment.Fits m.memory.size) ↔
      ∀ segment ∈ asm.segments, segment.bytes.size ≠ 0 →
        segment.Fits m.memory.size := by
    simp [build]
  rw [← hbuild]
  constructor
  · rintro ⟨m', h⟩
    exact (loadProgram_eq_ok.1 h).1
  · intro hfits
    exact ⟨_, loadProgram_eq_ok.2 ⟨hfits, rfl⟩⟩

/-- Labels and loading agree.  The address reported is the origin of the segment
and as many bytes as were emitted since.  A program is loaded if its segments
with code lie inside memory, and then each byte is at the address reported
before it was emitted, unless a later byte has the same; nothing else changes.
A program that is not loaded leaves its segments before the first that does not
fit. To load it once more gives the same result and changes nothing. -/
theorem labels_and_loading_agree (statements : List Statement) (m : Machine) :
    (assembled statements).here =
      lastOrigin statements + UInt16.ofNat (sinceOrigin statements) ∧
      ((∃ m', loadProgram (assembled statements).build m = .ok () m') ↔
        ∀ segment ∈ (assembled statements).segments, segment.bytes.size ≠ 0 →
          segment.origin.toNat + segment.bytes.size ≤ m.memory.size) ∧
      (∀ m', loadProgram (assembled statements).build m = .ok () m' →
        m' = { m with memory := m'.memory } ∧ m'.memory.size = m.memory.size ∧
          (m.memory.size ≤ 65536 → ∀ before a byte after,
            labelled statements = before ++ (a, byte) :: after →
              (∀ later, (a, later) ∉ after) →
              m'.memory.readByte a.toNat = .ok byte) ∧
          (∀ offset, (∀ byte, (UInt16.ofNat offset, byte) ∉ labelled statements) →
            m'.memory.readByte offset = m.memory.readByte offset) ∧
          loadProgram (assembled statements).build m' = .ok () m') ∧
      ∀ e m', loadProgram (assembled statements).build m = .error e m' →
        (∃ before segment after,
          (assembled statements).build.segments = before ++ segment :: after ∧
            (∀ earlier ∈ before, earlier.Fits m.memory.size) ∧
            ¬segment.Fits m.memory.size ∧
            e = ⟨segment.origin.toNat, segment.bytes.size, m.memory.size⟩ ∧
            loadProgram ⟨before⟩ m = .ok () m') ∧
          loadProgram (assembled statements).build m' = .error e m' := by
  obtain ⟨hok, herror⟩ := loadProgram_again (assembled statements).build m
  refine ⟨here_assembled statements, loadProgram_build_eq_ok_iff _ m,
    fun m' h => ?_, fun e m' h => ⟨?_, herror e m' h⟩⟩
  · obtain ⟨hframe, hsize⟩ := frame_of_loadProgram h
    exact ⟨hframe, hsize, fun hmax _ _ _ _ => readByte_label hmax h,
      fun _ => readByte_of_no_label h, hok m' h⟩
  · obtain ⟨before, segment, after, hp, hfits, hgap, he, rfl⟩ :=
      loadProgram_eq_error.1 h
    exact ⟨before, segment, after, hp, hfits, hgap, he, loadProgram_of_fits hfits⟩

end Machine

end StackMachine
