import StackMachine.Proofs.Pushes

/-!
# What is on the stack

A machine that has pushed words since it was fresh has them at the end of its
memory.  Here that is a statement about a machine and a list of words, the
topmost first, together with what a push, a pop and a row of pushes do to the
list.

## Main definitions

* `Memory.EndsWith` — the last words of a memory
* `Machine.freeSlot` — the stack pointer of a machine with so many words on its
  stack
* `Machine.StackIs` — a machine with certain words on its stack and nothing
  below them

## Main statements

* `Machine.StackIs.push`, `Machine.StackIs.pop`, `Machine.StackIs.pushAll` — the
  operations on a machine are those on its list
* `Machine.StackIs.take_off` — a stack whose pointer is moved up has lost the
  words in between

## Design notes

**Addresses are natural numbers and pointers are not.**  The words of a stack
that fills a memory of 65536 bytes leave the stack pointer at 65534, where it
stands as well when the stack is empty.  So the pointer is given by `freeSlot`,
which wraps around, and a word is found at its distance from the end of memory,
which does not.
-/

namespace StackMachine

namespace Memory

/-- The words at the end of a memory, the one that lies lowest first. -/
def EndsWith (m : Memory) : List UInt16 → Prop
  | [] => True
  | word :: words => m.readWord (m.size - 2 * (words.length + 1)) = .ok word ∧
      m.EndsWith words

/-- A word that is written below the last words of a memory leaves them as they
are.  Pushes and stores below the stack are of this kind. -/
theorem EndsWith.putWord {m : Memory} {words : List UInt16}
    (h : m.EndsWith words) {offset : Nat} (value : UInt16)
    (hbelow : offset + 2 + 2 * words.length ≤ m.size) :
    (m.putWord offset value).EndsWith words := by
  induction words with
  | nil => trivial
  | cons word words ih =>
    rw [List.length_cons] at hbelow
    obtain ⟨hword, hwords⟩ := h
    refine ⟨?_, ih hwords (by omega)⟩
    rw [size_putWord, readWord_putWord_of_disjoint m value (.inl (by omega)), hword]

theorem EndsWith.append_right {m : Memory} {words others : List UInt16}
    (h : m.EndsWith (words ++ others)) : m.EndsWith others := by
  induction words with
  | nil => exact h
  | cons word words ih => exact ih h.2

end Memory

namespace Machine

/-! ### Stack pointers -/

/-- The stack pointer above which so many words lie, in a memory of some size. -/
def freeSlot (size depth : Nat) : UInt16 := UInt16.ofNat (size - 2 * depth) - 2

variable {size depth count : Nat}

/-- The free slot is two bytes lower for each word more.  The difference is one
of addresses, which may have wrapped around. -/
theorem freeSlot_add (h : 2 * (depth + count) ≤ size) :
    freeSlot size (depth + count) =
      freeSlot size depth - UInt16.ofNat (2 * count) := by
  -- The subtraction of natural numbers is exact, which is what room for the
  -- words is needed for.
  have hsplit : UInt16.ofNat (size - 2 * depth) =
      UInt16.ofNat (size - 2 * (depth + count)) + UInt16.ofNat (2 * count) := by
    rw [← UInt16.ofNat_add]
    congr 1
    omega
  rw [freeSlot, freeSlot, hsplit]
  grind

theorem freeSlot_succ (h : 2 * (depth + 1) ≤ size) :
    freeSlot size (depth + 1) = freeSlot size depth - 2 := freeSlot_add h

/-- The free slot is where the next word goes.  Its address is stated as a
number only where there is room for that word, as it has wrapped around
where there is none. -/
theorem toNat_freeSlot (hsize : size ≤ 65536) (h : 2 * (depth + 1) ≤ size) :
    (freeSlot size depth).toNat = size - 2 * (depth + 1) := by
  have hfree : freeSlot size depth = UInt16.ofNat (size - 2 * (depth + 1)) := by
    have hsplit : size - 2 * depth = size - 2 * (depth + 1) + 2 := by omega
    rw [freeSlot, hsplit, UInt16.ofNat_add]
    exact UInt16.add_sub_cancel _ 2
  rw [hfree]
  refine UInt16.toNat_ofNat_of_lt' ?_
  show size - 2 * (depth + 1) < 65536
  omega

/-- The slot above the free one holds the topmost word.  It lies inside memory,
also where the free slot does not. -/
theorem toNat_freeSlot_add_two (hsize : size ≤ 65536) (h : 2 * (depth + 1) ≤ size) :
    (freeSlot size (depth + 1) + 2).toNat = size - 2 * (depth + 1) := by
  rw [freeSlot_succ h, UInt16.sub_add_cancel, toNat_freeSlot hsize h]

/-- The size of a frame leads past the frame and the words of its caller, and
further by as much as it counts too many.  With nothing too many it is the slot
where the caller began. -/
theorem freeSlot_add_frameSize {words excess : Nat}
    (h : 2 * (depth + (words + 10)) ≤ size) :
    freeSlot size (depth + (words + 10)) +
      (UInt16.ofNat (2 * (words + excess)) + 20) =
      freeSlot size depth + UInt16.ofNat (2 * excess) := by
  have hframe :
      UInt16.ofNat (2 * (words + 10)) = UInt16.ofNat (2 * words) + 20 := by
    rw [Nat.mul_add, UInt16.ofNat_add]
    rfl
  have hcount : UInt16.ofNat (2 * (words + excess)) =
      UInt16.ofNat (2 * words) + UInt16.ofNat (2 * excess) := by
    rw [Nat.mul_add, UInt16.ofNat_add]
  rw [freeSlot_add h, hframe, hcount]
  grind

theorem stackTop_eq_freeSlot {memory : Memory} (h : 2 ≤ memory.size) :
    stackTop memory = freeSlot memory.size 0 := by
  have hsplit : memory.size - 2 * 0 = memory.size - 2 + 2 := by omega
  rw [stackTop, freeSlot, hsplit, UInt16.ofNat_add]
  exact (UInt16.add_sub_cancel _ 2).symm

/-! ### Stacks -/

/-- The words on the stack of a machine, the topmost first, are all that is on
it. -/
structure StackIs (m : Machine) (words : List UInt16) : Prop where
  /-- Every offset in memory is an address. -/
  size_le : m.memory.size ≤ 65536
  /-- The words have distinct addresses, all of them in memory. -/
  fits : 2 * words.length ≤ m.memory.size
  /-- The stack pointer is behind the topmost. -/
  sp_eq : m.sp = freeSlot m.memory.size words.length
  /-- The words are in memory. -/
  holds : m.memory.EndsWith words

namespace StackIs

variable {m m' : Machine} {words others : List UInt16} {word value : UInt16}

/-- Only the memory and the stack pointer make a stack.  All other
fields may be changed. -/
theorem congr (h : m.StackIs words) (hmemory : m'.memory = m.memory)
    (hsp : m'.sp = m.sp) :
    m'.StackIs words where
  size_le := by rw [hmemory]; exact h.size_le
  fits := by rw [hmemory]; exact h.fits
  sp_eq := by rw [hmemory, hsp]; exact h.sp_eq
  holds := by rw [hmemory]; exact h.holds

theorem setRegister (h : m.StackIs words) {r : Register} (hr : r ≠ .sp) :
    (m.setRegister r value).StackIs words :=
  h.congr rfl (register_setRegister_of_ne m value hr)

/-- The words above a stack pointer that is moved up are no longer on the stack.
They need not be taken off one by one, and their bytes stay. -/
theorem take_off (h : m.StackIs (words ++ others)) (hmemory : m'.memory = m.memory)
    (hsp : m'.sp = freeSlot m.memory.size others.length) : m'.StackIs others where
  size_le := by rw [hmemory]; exact h.size_le
  fits := by
    have hfits := h.fits
    rw [List.length_append] at hfits
    rw [hmemory]
    omega
  sp_eq := by rw [hmemory, hsp]
  holds := by rw [hmemory]; exact h.holds.append_right

/-- A word is pushed where there is room for it, and is then on top. -/
theorem push (h : m.StackIs words) (value : UInt16)
    (hroom : 2 * (words.length + 1) ≤ m.memory.size) :
    m.sp.toNat + 2 ≤ m.memory.size ∧ (m.pushed value).StackIs (value :: words) := by
  have hslot : m.sp.toNat = m.memory.size - 2 * (words.length + 1) := by
    rw [h.sp_eq, toNat_freeSlot h.size_le hroom]
  have hsize : (m.pushed value).memory.size = m.memory.size :=
    size_memory_pushed m value
  refine ⟨by omega, ?_, ?_, ?_, ?_, ?_⟩
  · rw [hsize]
    exact h.size_le
  · rw [hsize]
    exact hroom
  · rw [hsize, sp_pushed, h.sp_eq, List.length_cons, freeSlot_succ hroom]
  · rw [hsize, ← hslot]
    exact Memory.readWord_putWord_self _ _ (by omega)
  · exact h.holds.putWord value (by omega)

/-- The topmost word can always be popped, and the others are left. -/
theorem pop (h : m.StackIs (word :: words)) :
    Machine.pop m = .ok word m.popped ∧ m.popped.StackIs words := by
  have hfits : 2 * (words.length + 1) ≤ m.memory.size := h.fits
  have hsp : m.sp = freeSlot m.memory.size (words.length + 1) := h.sp_eq
  constructor
  · refine pop_eq_popped ?_
    rw [hsp, toNat_freeSlot_add_two h.size_le hfits]
    exact h.holds.1
  · refine (show m.StackIs ([word] ++ words) from h).take_off rfl ?_
    rw [sp_popped, hsp, freeSlot_succ hfits, UInt16.sub_add_cancel]

theorem store (h : m.StackIs words) {address : UInt16}
    (hbelow : address.toNat + 2 + 2 * words.length ≤ m.memory.size)
    (value : UInt16) :
    storeWord address value m =
        .ok () { m with memory := m.memory.putWord address.toNat value } ∧
      { m with memory := m.memory.putWord address.toNat value }.StackIs words := by
  have hsize := m.memory.size_putWord address.toNat value
  constructor
  · rw [storeWord_eq, Memory.putWord, dif_pos (by omega), dif_pos (by omega)]
  · refine ⟨?_, ?_, ?_, h.holds.putWord value hbelow⟩
    · show (m.memory.putWord address.toNat value).size ≤ 65536
      rw [hsize]
      exact h.size_le
    · show 2 * words.length ≤ (m.memory.putWord address.toNat value).size
      rw [hsize]
      exact h.fits
    · show m.sp = freeSlot (m.memory.putWord address.toNat value).size words.length
      rw [hsize]
      exact h.sp_eq

/-- Where a row of words fits on the stack, a call would find room for it.  Once
it is pushed, its words are on top, the last one first. -/
theorem pushAll (h : m.StackIs words) (values : List UInt16)
    (hroom : 2 * (words.length + values.length) ≤ m.memory.size) :
    m.checkRoom values.length = .ok () ∧
      (m.pushedAll values).StackIs (values.reverse ++ words) := by
  induction values generalizing m words with
  | nil => exact ⟨rfl, h⟩
  | cons value values ih =>
    rw [List.length_cons] at hroom
    obtain ⟨hfits, hpushed⟩ := h.push value (by omega)
    have hsize : (m.pushed value).memory.size = m.memory.size :=
      size_memory_pushed m value
    obtain ⟨hcheck, hall⟩ := ih hpushed (by rw [hsize, List.length_cons]; omega)
    constructor
    · rw [List.length_cons, checkRoom_succ m _ value, if_pos hfits]
      exact hcheck
    · rw [List.reverse_cons, List.append_assoc]
      exact hall

end StackIs

end Machine

end StackMachine
