import StackMachine.Proofs.Record

/-!
# The frame of a call

A call pushes ten words and nothing else.  Addresses wrap around, so a frame may
lie in two pieces, at the bottom of memory and at its top; the words of the
frame are at even distances from each other and stay apart all the same.

## Main definitions

* `Memory.WordsFrom` — words that stand one after another from an address on
* `Machine.Called` — what a call that succeeds does to a machine

## Main statements

* `Machine.checkRoom_eq_ok`, `Machine.checkRoom_eq_error` — the test of the
  slots, slot by slot
* `Machine.wordsFrom_pushedAll`, `Machine.readByte_pushedAll` — what pushes in a
  row leave in memory
* `Machine.call_writes_frame_or_nothing` — a call writes its whole frame, or
  nothing

## Design notes

**Upwards from the stack pointer.**  A stack is described by the words above its
pointer, the one pushed last first.  The pointer itself is where the next push
writes, so a push adds a word in front and no word changes its place.
-/

namespace StackMachine

namespace Memory

/-- Words stand one after another from an address on, which wraps around. -/
def WordsFrom (m : Memory) : (address : UInt16) → List UInt16 → Prop
  | _, [] => True
  | address, word :: words => m.readWord address.toNat = .ok word ∧
      m.WordsFrom (address + 2) words

variable {m : Memory} {address : UInt16} {words : List UInt16}

/-- The words of a row are two bytes apart.  Addresses wrap around, so this is
an equation of words and not of numbers. -/
theorem next_of_row (address : UInt16) (k : Nat) :
    address + 2 + UInt16.ofNat (2 * k) = address + UInt16.ofNat (2 * (k + 1)) := by
  rw [Nat.mul_add, Nat.add_comm, UInt16.ofNat_add, UInt16.add_assoc]
  rfl

/-- A row can be divided, with the second part as far on as the first is long. -/
theorem wordsFrom_append {others : List UInt16} :
    m.WordsFrom address (words ++ others) ↔
      m.WordsFrom address words ∧
        m.WordsFrom (address + UInt16.ofNat (2 * words.length)) others := by
  induction words generalizing address with
  | nil =>
    show m.WordsFrom address others ↔ True ∧ m.WordsFrom (address + 0) others
    rw [UInt16.add_zero, true_and]
  | cons word words ih =>
    rw [List.length_cons, ← next_of_row, List.cons_append, WordsFrom, WordsFrom,
      ih, and_assoc]

/-- Words at different places of a row that is not longer than the address space
do not overlap, also where the row wraps around. -/
theorem disjoint_of_even_distance (address : UInt16) {k : Nat} (hpos : 0 < k)
    (hk : k < 32768) :
    address.toNat + 2 ≤ (address + UInt16.ofNat (2 * k)).toNat ∨
      (address + UInt16.ofNat (2 * k)).toNat + 2 ≤ address.toNat := by
  have hlt := address.toNat_lt
  rw [UInt16.toNat_add, UInt16.toNat_ofNat']
  omega

/-- A word that is written leaves the words of a row that starts behind it. -/
theorem WordsFrom.putWord {k : Nat}
    (h : m.WordsFrom (address + UInt16.ofNat (2 * k)) words) (value : UInt16)
    (hpos : 0 < k) (hk : k + words.length ≤ 32768) :
    (m.putWord address.toNat value).WordsFrom
      (address + UInt16.ofNat (2 * k)) words := by
  induction words generalizing k with
  | nil => trivial
  | cons word words ih =>
    rw [List.length_cons] at hk
    have hnext : address + UInt16.ofNat (2 * k) + 2 =
        address + UInt16.ofNat (2 * (k + 1)) := by
      rw [← next_of_row, UInt16.add_assoc, UInt16.add_assoc, UInt16.add_comm 2]
    obtain ⟨hword, hrest⟩ := h
    rw [hnext] at hrest
    refine ⟨?_, hnext ▸ ih hrest (by omega) (by omega)⟩
    rw [readWord_putWord_of_disjoint m value
      (disjoint_of_even_distance address hpos (by omega))]
    exact hword

/-- A word that is written changes its two bytes. -/
theorem readByte_putWord_of_ne {offset a : Nat} (value : UInt16)
    (hhigh : a ≠ offset) (hlow : a ≠ offset + 1) :
    (m.putWord offset value).readByte a = m.readByte a := by
  unfold putWord
  split
  · next h =>
    have hbyte : offset + 1 ≤ m.size := by omega
    have hnext :
        offset + 1 + 1 ≤ (m.setByte offset (Word.high value) hbyte).size := by
      rwa [size_setByte]
    show ((m.setByte offset (Word.high value) hbyte).setByte (offset + 1)
      (Word.low value)
      hnext).readByte a = m.readByte a
    rw [readByte_setByte_of_ne _ _ _ hlow.symm,
      readByte_setByte_of_ne _ _ _ hhigh.symm]
  · rfl

end Memory

namespace Machine

variable {m m' : Machine} {words values : List UInt16}

/-! ### The slots of a row of pushes -/

/-- The first slot is where the stack pointer stands. -/
theorem slot_zero (sp : UInt16) : slot sp 0 = sp := UInt16.sub_zero sp

/-- The others are those of the pointer behind a push. -/
theorem slot_succ (sp : UInt16) (i : Nat) : slot sp (i + 1) = slot (sp - 2) i := by
  rw [slot, slot, Nat.mul_add, UInt16.ofNat_add]
  grind

/-- The test finds room if each slot lies in memory.  Each is tested by itself,
so the slots may lie at both ends of memory. -/
theorem checkRoom_eq_ok {count : Nat} :
    m.checkRoom count = .ok () ↔
      ∀ i < count, (slot m.sp i).toNat + 2 ≤ m.memory.size := by
  unfold checkRoom
  split
  · next hfind =>
    simpa [List.find?_range_eq_none] using hfind
  · next i hfind =>
    obtain ⟨hout, hi, -⟩ := List.find?_range_eq_some.1 hfind
    simp only [reduceCtorEq, false_iff]
    intro hall
    have hin := hall i (List.mem_range.1 hi)
    simp only [decide_eq_true_eq] at hout
    omega

/-- The test complains about the first slot that does not lie in memory, with
where it is and how large the memory is. -/
theorem checkRoom_eq_error {count : Nat} {e : OutOfBounds} :
    m.checkRoom count = .error e ↔
      ∃ i < count, (∀ j < i, (slot m.sp j).toNat + 2 ≤ m.memory.size) ∧
        m.memory.size < (slot m.sp i).toNat + 2 ∧
          e = ⟨(slot m.sp i).toNat, 2, m.memory.size⟩ := by
  unfold checkRoom
  split
  · next hfind =>
    simp only [reduceCtorEq, false_iff]
    rintro ⟨i, hi, -, hout, -⟩
    have hin := List.find?_range_eq_none.1 hfind i hi
    simp only [Bool.not_eq_true', decide_eq_false_iff_not] at hin
    exact hin hout
  · next i hfind =>
    constructor
    · intro h
      cases h
      obtain ⟨hout, hi, hbefore⟩ := List.find?_range_eq_some.1 hfind
      refine ⟨i, List.mem_range.1 hi, ?_, of_decide_eq_true hout, rfl⟩
      intro j hj
      simpa using hbefore j hj
    · rintro ⟨k, hk, hbefore, hout, rfl⟩
      have hfirst : (List.range count).find?
          (fun i => m.memory.size < (slot m.sp i).toNat + 2) = some k := by
        refine List.find?_range_eq_some.2
          ⟨decide_eq_true hout, List.mem_range.2 hk, ?_⟩
        intro j hj
        simpa using hbefore j hj
      cases hfind.symm.trans hfirst
      rfl

/-! ### What pushes leave in memory -/

/-- Behind a row of pushes the pointer stands at the slot after the last. -/
theorem sp_pushedAll (m : Machine) (values : List UInt16) :
    (m.pushedAll values).sp = slot m.sp values.length := by
  induction values generalizing m with
  | nil => exact (slot_zero m.sp).symm
  | cons value values ih =>
    rw [pushedAll_cons, ih, sp_pushed, List.length_cons, slot_succ]

/-- A word that is pushed comes in front of those above the stack pointer. There
may be so many of them that they fill the address space, but not more. -/
theorem wordsFrom_pushed (h : m.memory.WordsFrom (m.sp + 2) words) (value : UInt16)
    (hfits : m.sp.toNat + 2 ≤ m.memory.size) (hlength : words.length < 32768) :
    (m.pushed value).memory.WordsFrom ((m.pushed value).sp + 2)
    (value :: words) := by
  rw [sp_pushed, UInt16.sub_add_cancel]
  refine ⟨Memory.readWord_putWord_self _ _ hfits, ?_⟩
  have hone : m.sp + 2 = m.sp + UInt16.ofNat (2 * 1) := rfl
  rw [hone] at h ⊢
  exact h.putWord value Nat.one_pos (by omega)

/-- Words that are pushed stand above the stack pointer, the last one lowest. -/
theorem wordsFrom_pushedAll (h : m.memory.WordsFrom (m.sp + 2) words)
    (hroom : m.checkRoom values.length = .ok ())
    (hlength : words.length + values.length ≤ 32768) :
    (m.pushedAll values).memory.WordsFrom ((m.pushedAll values).sp + 2)
      (values.reverse ++ words) := by
  induction values generalizing m words with
  | nil => exact h
  | cons value values ih =>
    rw [List.length_cons] at hlength
    obtain ⟨hfits, hrest⟩ := room_of_succ hroom value
    have hfirst := wordsFrom_pushed h value hfits (by omega)
    rw [pushedAll_cons, List.reverse_cons, List.append_assoc, List.singleton_append]
    refine ih hfirst hrest ?_
    rw [List.length_cons]
    omega

/-- A byte that is in none of the slots is left as it is.  What a call keeps of
memory is read off this. -/
theorem readByte_pushedAll {offset : Nat}
    (h : ∀ i < values.length,
      offset ≠ (slot m.sp i).toNat ∧ offset ≠ (slot m.sp i).toNat + 1) :
    (m.pushedAll values).memory.readByte offset = m.memory.readByte offset := by
  induction values generalizing m with
  | nil => rfl
  | cons value values ih =>
    obtain ⟨hhigh, hlow⟩ := h 0 (Nat.succ_pos _)
    rw [slot_zero] at hhigh hlow
    have hpushed :
        (m.pushed value).memory.readByte offset = m.memory.readByte offset :=
      Memory.readByte_putWord_of_ne value hhigh hlow
    rw [pushedAll_cons, ih, hpushed]
    intro i hi
    rw [sp_pushed, ← slot_succ]
    exact h (i + 1) (Nat.succ_lt_succ hi)

/-! ### Calls -/

/-- The words of a frame as they stand in memory, from below: the size, the
address to return to and the registers, the last one first. -/
theorem reverse_frame (m : Machine) :
    m.frame.reverse = (m.frameBytes + 20) :: m.ip ::
      Register.general.reverse.map m.register := rfl

/-- What a call that succeeds does: ten words are written below the old stack
pointer, both pointers into the stack are put behind them, and the machine goes
on at the target. -/
structure Called (m : Machine) (target : UInt16) (m' : Machine) : Prop where
  /-- Above the new stack pointer stand the frame size, the return address and
  the general registers, the last one lowest. -/
  frame : m'.memory.WordsFrom (m.sp - 20 + 2)
    ((m.frameBytes + 20) :: m.ip :: Register.general.reverse.map m.register)
  /-- No byte outside the frame is written. -/
  elsewhere : ∀ offset, (∀ i < frameWords,
    offset ≠ (slot m.sp i).toNat ∧ offset ≠ (slot m.sp i).toNat + 1) →
      m'.memory.readByte offset = m.memory.readByte offset
  /-- The stack pointer is behind the frame. -/
  sp : m'.sp = m.sp - 20
  /-- The frame pointer is the stack pointer. -/
  fp : m'.fp = m.sp - 20
  /-- The machine goes on at the target. -/
  ip : m'.ip = target
  /-- Nothing is counted yet. -/
  frameBytes : m'.frameBytes = 0
  /-- The other registers keep their words. -/
  register : ∀ r, r ≠ .sp → r ≠ .fp → r ≠ .ip → m'.register r = m.register r
  /-- So does all else that the machine knows of its run, and the size of its
  memory. -/
  record : SameRecord m m'

/-- All that a call does, where there is room for it. -/
theorem called_of_room (target : UInt16) (h : m.checkRoom frameWords = .ok ()) :
    Called m target ((m.pushedAll m.frame).entered target) := by
  have hroom : m.checkRoom m.frame.length = .ok () := h
  have hsp : (m.pushedAll m.frame).sp = m.sp - 20 := sp_pushedAll m m.frame
  refine ⟨?_, ?_, ?_, ?_, ip_entered .., rfl, ?_, ?_⟩
  · have hnone : m.memory.WordsFrom (m.sp + 2) [] := trivial
    have hlength : ([] : List UInt16).length + m.frame.length ≤ 32768 := by
      rw [length_frame]
      decide
    have hwords := wordsFrom_pushedAll hnone hroom hlength
    rw [hsp, List.append_nil, reverse_frame] at hwords
    rw [memory_entered]
    exact hwords
  · intro offset hoffset
    rw [memory_entered]
    refine readByte_pushedAll fun i hi => hoffset i ?_
    rwa [length_frame] at hi
  · rw [sp_entered, hsp]
  · rw [fp_entered, hsp]
  · intro r hr hfp hip
    rw [register_entered _ _ hip hfp, register_pushedAll _ _ hr]
  · exact (SameRecord.pushedAll m m.frame).trans (.entered _ target)

/-- A call succeeds exactly if all ten slots below the stack pointer lie
in memory, and then writes the frame there and nothing else.  If it
fails, it complains about the first slot that does not lie in memory,
and has changed nothing. -/
theorem call_writes_frame_or_nothing (m : Machine) (target : UInt16) :
    ((∃ m', call target m = .ok () m') ↔
        ∀ i < frameWords, (slot m.sp i).toNat + 2 ≤ m.memory.size) ∧
      (∀ m', call target m = .ok () m' → Called m target m') ∧
      ∀ e m', call target m = .error e m' →
        m' = m ∧ ∃ i < frameWords,
        (∀ j < i, (slot m.sp j).toNat + 2 ≤ m.memory.size) ∧
          m.memory.size < (slot m.sp i).toNat + 2 ∧
          e = .memory ⟨(slot m.sp i).toNat, 2, m.memory.size⟩ := by
  refine ⟨⟨?_, ?_⟩, ?_, ?_⟩
  · rintro ⟨m', h⟩
    exact checkRoom_eq_ok.1 (call_eq_ok h).1
  · intro h
    exact ⟨_, call_of_room target (checkRoom_eq_ok.2 h)⟩
  · intro m' h
    obtain ⟨hroom, rfl⟩ := call_eq_ok h
    exact called_of_room target hroom
  · intro e m' h
    cases hroom : m.checkRoom frameWords with
    | ok done =>
      rw [call_of_room target hroom] at h
      cases h
    | error cause =>
      rw [call_of_no_room target hroom] at h
      cases h
      obtain ⟨i, hi, hbefore, hout, rfl⟩ := checkRoom_eq_error.1 hroom
      exact ⟨rfl, i, hi, hbefore, hout, rfl⟩

end Machine

end StackMachine
