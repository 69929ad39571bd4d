import StackMachine.Proofs.Code
import StackMachine.Proofs.MemoryHistory

/-!
# Loading segments

The segments of a program are copied into memory one after another, up to the
first that does not fit.  They may overlap, each other and what was in memory
before; a byte is then what the last of them to reach it has put there.

## Main definitions

* `Segment.Fits` — a segment lies inside a memory of some size
* `Segment.placed` — the bytes of a segment with the offsets that they go to
* `lastPlaced` — the byte placed last at an offset
* `Memory.withSegments` — a memory with segments copied into it

## Main statements

* `Memory.contents_withSegments` — the bytes of such a memory are those placed
  last
* `Memory.withSegments_twice` — segments that are copied again change nothing
* `Machine.loadProgram_eq_ok`, `Machine.loadProgram_eq_error` — when a program
  is loaded and when not, and what memory holds then
* `Machine.loadProgram_again` — a program that is loaded again ends as it did
  before

## Design notes

**Offsets do not wrap around.**  A segment starts at an address, but where its
bytes go is counted in natural numbers, so a segment that runs over the end of
the address space does not come back at its beginning.
-/

namespace StackMachine

namespace Segment

/-- The segment lies inside a memory of some size. -/
def Fits (segment : Segment) (size : Nat) : Prop :=
  segment.origin.toNat + segment.bytes.size ≤ size

instance (segment : Segment) (size : Nat) : Decidable (segment.Fits size) :=
  inferInstanceAs (Decidable (_ ≤ _))

/-- The bytes of a segment, each with the offset that it goes to. -/
def placed (segment : Segment) : List (Nat × UInt8) :=
  segment.bytes.toList.mapIdx fun k byte => (segment.origin.toNat + k, byte)

end Segment

/-- The byte that was placed last at some place, if one was. -/
def lastPlaced {α : Type} [BEq α] (placed : List (α × UInt8)) (place : α) :
    Option UInt8 :=
  placed.reverse.lookup place

/-- What is placed later covers what is placed before. -/
theorem lastPlaced_append {α : Type} [BEq α] (placed others : List (α × UInt8))
    (place : α) :
    lastPlaced (placed ++ others) place =
      (lastPlaced others place).or (lastPlaced placed place) := by
  rw [lastPlaced, List.reverse_append, List.lookup_append]
  rfl

theorem lastPlaced_singleton {α : Type} [BEq α] (placedAt place : α)
    (byte : UInt8) :
    lastPlaced [(placedAt, byte)] place = if place == placedAt then some byte
      else none := by
  rw [lastPlaced, List.reverse_singleton, List.lookup_cons]
  cases place == placedAt <;> rfl

/-- Of bytes in a row, each is placed once, so the row can be looked up by
offset. -/
theorem lastPlaced_mapIdx (bytes : List UInt8) (offset a : Nat) :
    lastPlaced (bytes.mapIdx fun k byte => (offset + k, byte)) a =
      if offset ≤ a then bytes[a - offset]? else none := by
  induction bytes generalizing offset with
  | nil => simp [lastPlaced]
  | cons byte bytes ih =>
    have hrest : (fun k byte => (offset + (k + 1), byte)) =
        fun k (byte : UInt8) => (offset + 1 + k, byte) := by
      funext k byte
      rw [Nat.add_right_comm, Nat.add_assoc]
    rw [List.mapIdx_cons, hrest, ← List.singleton_append, lastPlaced_append, ih]
    rcases Nat.lt_trichotomy a offset with ha | rfl | ha
    · rw [if_neg (by omega), if_neg (by omega), lastPlaced_singleton,
        if_neg (by simp; omega)]
      rfl
    · rw [if_neg (by omega), if_pos (Nat.le_refl a), Nat.sub_self,
        lastPlaced_singleton, if_pos (by simp)]
      rfl
    · have hsub : a - offset = a - (offset + 1) + 1 := by omega
      rw [if_pos (by omega), if_pos (by omega), hsub, List.getElem?_cons_succ,
        lastPlaced_singleton, if_neg (by simp; omega), Option.or_none]

namespace Memory

variable {m m' : Memory} {segments : List Segment}

/-- Memories of one size with the same bytes are equal.  Equations between
memories are proved byte by byte through it. -/
theorem eq_of_contents (hsize : m.size = m'.size)
    (h : ∀ a, m.contents a = m'.contents a) :
    m = m' := by
  obtain ⟨bytes⟩ := m
  obtain ⟨others⟩ := m'
  have hbytes : bytes = others := by
    refine Array.ext hsize fun a ha hb => ?_
    have hsame := h a
    rwa [contents, contents, Array.getD, dif_pos ha, Array.getD,
      dif_pos hb] at hsame
  rw [hbytes]

/-- The memory with segments copied into it, one after another. -/
def withSegments (m : Memory) (segments : List Segment) : Memory :=
  segments.foldl (fun m segment =>
    m.overwrite segment.origin.toNat segment.bytes.toList) m

theorem withSegments_cons (m : Memory) (segment : Segment)
    (segments : List Segment) :
    m.withSegments (segment :: segments) =
      (m.overwrite segment.origin.toNat segment.bytes.toList).withSegments
        segments := rfl

@[simp] theorem size_withSegments (m : Memory) (segments : List Segment) :
    (m.withSegments segments).size = m.size := by
  induction segments generalizing m with
  | nil => rfl
  | cons segment segments ih => rw [withSegments_cons, ih, size_overwrite]

/-- Where segments were copied, the bytes are those placed last, and everywhere
else those of before. -/
theorem contents_withSegments (h : ∀ segment ∈ segments, segment.Fits m.size)
    (a : Nat) :
    (m.withSegments segments).contents a =
      (lastPlaced (segments.flatMap Segment.placed) a).getD (m.contents a) := by
  induction segments generalizing m with
  | nil => rfl
  | cons segment segments ih =>
    obtain ⟨hfirst, hrest⟩ := List.forall_mem_cons.1 h
    have hone : (m.overwrite segment.origin.toNat segment.bytes.toList).contents a =
        (lastPlaced segment.placed a).getD (m.contents a) := by
      rw [Segment.placed, lastPlaced_mapIdx]
      exact contents_overwrite hfirst a
    rw [withSegments_cons, ih (by rwa [size_overwrite]), hone,
      List.flatMap_cons, lastPlaced_append]
    cases lastPlaced (segments.flatMap Segment.placed) a <;> rfl

/-- Segments that are copied again change nothing.  The byte placed last is
the same both times. -/
theorem withSegments_twice (h : ∀ segment ∈ segments, segment.Fits m.size) :
    (m.withSegments segments).withSegments segments = m.withSegments segments := by
  refine eq_of_contents (size_withSegments ..) fun a => ?_
  rw [contents_withSegments (by rwa [size_withSegments]), contents_withSegments h]
  cases lastPlaced (segments.flatMap Segment.placed) a <;> rfl

end Memory

namespace Machine

variable {m m' : Machine} {segment : Segment} {segments before after : List Segment}

theorem loadProgram_cons (segment : Segment) (segments : List Segment) :
    loadProgram ⟨segment :: segments⟩ =
      load segment.origin segment.bytes.toList >>= fun _ =>
        loadProgram ⟨segments⟩ := rfl

/-- A segment that does not fit is not loaded in part. -/
theorem load_of_not_fits (h : ¬segment.Fits m.memory.size) :
    load segment.origin segment.bytes.toList m =
      .error ⟨segment.origin.toNat, segment.bytes.size, m.memory.size⟩ m := by
  unfold load
  rw [Memory.check,
    if_neg (show ¬segment.origin.toNat + segment.bytes.toList.length ≤ _ from h)]
  rfl

/-- A program whose segments all fit is loaded, and nothing but memory changes. -/
theorem loadProgram_of_fits (h : ∀ segment ∈ segments, segment.Fits m.memory.size) :
    loadProgram ⟨segments⟩ m = .ok () (m.mapMemory (·.withSegments segments)) := by
  induction segments generalizing m with
  | nil => rfl
  | cons segment segments ih =>
    obtain ⟨hfirst, hrest⟩ := List.forall_mem_cons.1 h
    rw [loadProgram_cons, Action.bind_of_ok (load_of_le hfirst), ih]
    · rfl
    · rwa [memory_mapMemory, Memory.size_overwrite]

/-- A program is loaded up to its first segment that does not fit, and the
complaint is about that one. -/
theorem loadProgram_of_gap (h : ∀ segment ∈ before, segment.Fits m.memory.size)
    (hgap : ¬segment.Fits m.memory.size) :
    loadProgram ⟨before ++ segment :: after⟩ m =
      .error ⟨segment.origin.toNat, segment.bytes.size, m.memory.size⟩
        (m.mapMemory (·.withSegments before)) := by
  have hsize : (m.mapMemory (·.withSegments before)).memory.size = m.memory.size :=
    Memory.size_withSegments ..
  rw [loadProgram_append, Action.bind_of_ok (loadProgram_of_fits h),
    loadProgram_cons, ← hsize]
  rw [← hsize] at hgap
  exact Action.bind_of_error (load_of_not_fits hgap) _

/-- All segments fit, or there is a first that does not.  This is the case split
for everything that is said of loading. -/
theorem fits_or_gap (segments : List Segment) (size : Nat) :
    (∀ segment ∈ segments, segment.Fits size) ∨
      ∃ before segment after, segments = before ++ segment :: after ∧
        (∀ segment ∈ before, segment.Fits size) ∧ ¬segment.Fits size := by
  induction segments with
  | nil => exact .inl fun _ h => nomatch h
  | cons first segments ih =>
    by_cases hfirst : first.Fits size
    · rcases ih with hall | ⟨before, segment, after, rfl, hbefore, hgap⟩
      · exact .inl (List.forall_mem_cons.2 ⟨hfirst, hall⟩)
      · exact .inr ⟨first :: before, segment, after, rfl,
          List.forall_mem_cons.2 ⟨hfirst, hbefore⟩,
          hgap⟩
    · exact .inr ⟨[], first, segments, rfl, (fun _ h => nomatch h), hfirst⟩

/-- The outcome of loading a program: all of it, or all in front of the first
segment that does not fit. -/
theorem loadProgram_cases (p : Program) (m : Machine) :
    ((∀ segment ∈ p.segments, segment.Fits m.memory.size) ∧
        loadProgram p m = .ok () (m.mapMemory (·.withSegments p.segments))) ∨
      ∃ before segment after, p.segments = before ++ segment :: after ∧
        (∀ segment ∈ before, segment.Fits m.memory.size) ∧
        ¬segment.Fits m.memory.size ∧
        loadProgram p m =
          .error ⟨segment.origin.toNat, segment.bytes.size, m.memory.size⟩
          (m.mapMemory (·.withSegments before)) := by
  obtain ⟨segments⟩ := p
  rcases fits_or_gap segments m.memory.size with
    h | ⟨before, segment, after, rfl, h, hgap⟩
  · exact .inl ⟨h, loadProgram_of_fits h⟩
  · exact .inr ⟨before, segment, after, rfl, h, hgap, loadProgram_of_gap h hgap⟩

/-- A program is loaded exactly if all its segments fit, and then the memory has
them. -/
theorem loadProgram_eq_ok {p : Program} :
    loadProgram p m = .ok () m' ↔
      (∀ segment ∈ p.segments, segment.Fits m.memory.size) ∧
        m' = m.mapMemory (·.withSegments p.segments) := by
  refine ⟨fun h => ?_, fun ⟨hfits, hm'⟩ => hm' ▸ loadProgram_of_fits hfits⟩
  rcases loadProgram_cases p m with ⟨hfits, hload⟩ | ⟨_, _, _, -, -, -, hload⟩
  · cases hload.symm.trans h
    exact ⟨hfits, rfl⟩
  · cases hload.symm.trans h

/-- If one does not fit, those in front of the first of that kind have been
loaded. -/
theorem loadProgram_eq_error {p : Program} {e : OutOfBounds} :
    loadProgram p m = .error e m' ↔
      ∃ before segment after, p.segments = before ++ segment :: after ∧
        (∀ segment ∈ before, segment.Fits m.memory.size) ∧
        ¬segment.Fits m.memory.size ∧
        e = ⟨segment.origin.toNat, segment.bytes.size, m.memory.size⟩ ∧
        m' = m.mapMemory (·.withSegments before) := by
  refine ⟨fun h => ?_, ?_⟩
  · rcases loadProgram_cases p m with
      ⟨-, hload⟩ | ⟨before, segment, after, hp, hfits, hgap, hload⟩
    · cases hload.symm.trans h
    · cases hload.symm.trans h
      exact ⟨before, segment, after, hp, hfits, hgap, rfl, rfl⟩
  · rintro ⟨before, segment, after, hp, hfits, hgap, rfl, rfl⟩
    obtain ⟨segments⟩ := p
    obtain rfl : segments = before ++ segment :: after := hp
    exact loadProgram_of_gap hfits hgap

/-- Loading changes nothing but the bytes of memory, neither registers nor the
record of the run. -/
theorem frame_of_loadProgram {p : Program} (h : loadProgram p m = .ok () m') :
    m' = { m with memory := m'.memory } ∧ m'.memory.size = m.memory.size := by
  obtain ⟨-, rfl⟩ := loadProgram_eq_ok.1 h
  exact ⟨rfl, Memory.size_withSegments ..⟩

theorem mapMemory_withSegments_twice
    (h : ∀ segment ∈ segments, segment.Fits m.memory.size) :
    (m.mapMemory (·.withSegments segments)).mapMemory (·.withSegments segments) =
      m.mapMemory (·.withSegments segments) :=
  congrArg (fun memory => { m with memory }) (Memory.withSegments_twice h)

/-- A program that is loaded again ends as it did before, and changes nothing. -/
theorem loadProgram_again (p : Program) (m : Machine) :
    (∀ m', loadProgram p m = .ok () m' → loadProgram p m' = .ok () m') ∧
      ∀ e m', loadProgram p m = .error e m' → loadProgram p m' = .error e m' := by
  have hsize (segments : List Segment) :
      (m.mapMemory (·.withSegments segments)).memory.size = m.memory.size :=
    Memory.size_withSegments ..
  refine ⟨fun m' h => ?_, fun e m' h => ?_⟩
  · obtain ⟨hfits, rfl⟩ := loadProgram_eq_ok.1 h
    refine loadProgram_eq_ok.2 ⟨?_, (mapMemory_withSegments_twice hfits).symm⟩
    rwa [hsize]
  · obtain ⟨before, segment, after, hp, hfits, hgap, rfl, rfl⟩ :=
      loadProgram_eq_error.1 h
    refine loadProgram_eq_error.2 ⟨before, segment, after, hp, ?_, ?_, ?_,
      (mapMemory_withSegments_twice hfits).symm⟩
    · rwa [hsize]
    · rwa [hsize]
    · rw [hsize]

end Machine

end StackMachine
