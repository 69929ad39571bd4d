import StackMachine.Word
import StackMachine.Text.Hex

/-!
# Byte-addressed memory

A memory is a fixed number of bytes.  Words are read and written at any offset,
aligned or not, high byte first.  Main memory and the register bank are both
memories.

## Main definitions

* `Memory`, `Memory.zeroed`, `Memory.size`
* `OutOfBounds` — an access that does not lie inside the memory
* `Memory.byteAt`, `Memory.wordAt`, `Memory.setByte`, `Memory.setWord` —
  accesses known to fit
* `Memory.readByte`, `Memory.readWord`, `Memory.writeByte`, `Memory.writeWord`,
  `Memory.load`, `Memory.slice` — accesses that are checked
* `Memory.window` — the bytes from an offset on, as many as there are up to a
  limit

## Main statements

* `Memory.window_of_readByte`, `Memory.window_of_readWord` — a window starts
  with what is read at its offset
* `Memory.readWord_setWord_self`, `Memory.readWord_setWord_of_disjoint` — the
  words of a memory are independent where they do not overlap

## Design notes

**Two layers.**  An access that is known to fit takes the proof and cannot fail;
a checked access tests the bound once and hands over to it.  A caller that holds
the memory as its only owner tests the bound itself and uses the first layer, so
a failed write never needs a second copy of the memory to return.

**Bounds are over the natural numbers.**  `offset + count` does not wrap around,
so an offset near any machine limit is simply too large.
-/

namespace StackMachine

/-- A fixed number of bytes. -/
structure Memory where
  /-- The bytes, from offset zero on. -/
  bytes : Array UInt8
deriving DecidableEq

/-- An access of `count` bytes at `offset` to a memory of `size` bytes
that it does not fit. -/
structure OutOfBounds where
  /-- Where the access starts. -/
  offset : Nat
  /-- How many bytes it asks for. -/
  count : Nat
  /-- How many bytes the memory has. -/
  size : Nat
deriving DecidableEq, Repr

/-- What is said about an access that does not fit. -/
def OutOfBounds.message (e : OutOfBounds) : String :=
  "access of " ++ toString e.count ++ " byte(s) at offset " ++
    Hex.offset e.offset ++ " is outside memory of " ++ toString e.size ++
    " bytes"

namespace Memory

/-- A memory of `size` bytes, all zero. -/
def zeroed (size : Nat) : Memory := ⟨Array.replicate size 0⟩

/-- How many bytes the memory has. -/
def size (m : Memory) : Nat := m.bytes.size

/-- How many bytes are not zero. -/
def nonZeroCount (m : Memory) : Nat :=
  m.bytes.foldl (fun n b => if b = 0 then n else n + 1) 0

/-- Every byte set to zero. -/
def clear (m : Memory) : Memory := ⟨m.bytes.map fun _ => 0⟩

/-! ### Accesses that fit -/

/-- The byte at an offset inside the memory. -/
def byteAt (m : Memory) (offset : Nat) (h : offset + 1 ≤ m.size) : UInt8 :=
  have : offset < m.bytes.size := h
  m.bytes[offset]

/-- The word whose high byte is at `offset`. -/
def wordAt (m : Memory) (offset : Nat) (h : offset + 2 ≤ m.size) : UInt16 :=
  have : offset + 1 < m.bytes.size := h
  Word.ofBytes m.bytes[offset] m.bytes[offset + 1]

/-- One byte replaced. -/
def setByte (m : Memory) (offset : Nat) (value : UInt8)
    (h : offset + 1 ≤ m.size) : Memory :=
  ⟨m.bytes.set offset value h⟩

/-- Two bytes replaced by those of a word, the high one at `offset`. -/
def setWord (m : Memory) (offset : Nat) (value : UInt16)
    (h : offset + 2 ≤ m.size) : Memory :=
  ⟨(m.bytes.set offset (Word.high value) (Nat.lt_of_succ_lt h)).set (offset + 1)
    (Word.low value)
    (by rw [Array.size_set]; exact h)⟩

/-- The bytes from `offset` on replaced, one after another, by those of `data`;
bytes of `data` that fall outside are dropped. -/
def overwrite (m : Memory) (offset : Nat) : List UInt8 → Memory
  | [] => m
  | value :: rest =>
    overwrite ⟨m.bytes.setIfInBounds offset value⟩ (offset + 1) rest

/-- The bytes from `offset` on, as many as there are but at most `limit`. -/
def window (m : Memory) (offset limit : Nat) : List UInt8 :=
  (m.bytes.extract offset (offset + limit)).toList

/-! ### Checked accesses -/

/-- Whether `count` bytes at `offset` lie inside the memory. -/
def check (m : Memory) (offset count : Nat) : Except OutOfBounds Unit :=
  if offset + count ≤ m.size then .ok () else .error ⟨offset, count, m.size⟩

/-- The byte at `offset`. -/
def readByte (m : Memory) (offset : Nat) : Except OutOfBounds UInt8 :=
  if h : offset + 1 ≤ m.size then .ok (m.byteAt offset h)
  else .error ⟨offset, 1, m.size⟩

/-- The word at `offset`. -/
def readWord (m : Memory) (offset : Nat) : Except OutOfBounds UInt16 :=
  if h : offset + 2 ≤ m.size then .ok (m.wordAt offset h)
  else .error ⟨offset, 2, m.size⟩

/-- The memory with one byte written. -/
def writeByte (m : Memory) (offset : Nat) (value : UInt8) :
    Except OutOfBounds Memory :=
  if h : offset + 1 ≤ m.size then .ok (m.setByte offset value h)
  else .error ⟨offset, 1, m.size⟩

/-- The memory with one word written. -/
def writeWord (m : Memory) (offset : Nat) (value : UInt16) :
    Except OutOfBounds Memory :=
  if h : offset + 2 ≤ m.size then .ok (m.setWord offset value h)
  else .error ⟨offset, 2, m.size⟩

/-- The memory with a block of bytes written; a block that does not fit is
not written at all. -/
def load (m : Memory) (offset : Nat) (data : List UInt8) :
    Except OutOfBounds Memory := do
  m.check offset data.length
  return m.overwrite offset data

/-- The `count` bytes from `offset` on. -/
def slice (m : Memory) (offset count : Nat) : Except OutOfBounds (List UInt8) := do
  m.check offset count
  return m.window offset count

/-! ### Sizes -/

@[simp] theorem size_zeroed (n : Nat) :
    (zeroed n).size = n := by simp [zeroed, size]

@[simp] theorem size_clear (m : Memory) :
    m.clear.size = m.size := by simp [clear, size]

@[simp] theorem size_setByte (m : Memory) (offset : Nat) (value : UInt8) (h) :
    (m.setByte offset value h).size = m.size := Array.size_set (h := h)

@[simp] theorem size_setWord (m : Memory) (offset : Nat) (value : UInt16) (h) :
    (m.setWord offset value h).size = m.size := by simp [setWord, size]

@[simp] theorem size_overwrite (m : Memory) (offset : Nat) (data : List UInt8) :
    (m.overwrite offset data).size = m.size := by
  induction data generalizing m offset with
  | nil => rfl
  | cons value rest ih => rw [overwrite, ih]; simp [size]

/-- A window is as long as it was asked to be, or ends with the memory. -/
theorem length_window (m : Memory) (offset limit : Nat) :
    (m.window offset limit).length = min limit (m.size - offset) := by
  rw [window, Array.length_toList, Array.size_extract, size]
  omega

/-! ### Windows from the front -/

/-- A window with room for a byte starts with the one at its offset.  Whatever
is decoded off a window is compared with memory through this. -/
theorem window_succ {m : Memory} {offset : Nat} (limit : Nat)
    (h : offset + 1 ≤ m.size) :
    m.window offset (limit + 1) =
      m.byteAt offset h :: m.window (offset + 1) limit := by
  have hlt : offset < m.bytes.toList.length := h
  simp only [window, Array.toList_extract, List.extract_eq_take_drop]
  rw [List.drop_eq_getElem_cons hlt,
    show offset + (limit + 1) - offset = limit + 1 by omega,
    List.take_succ_cons,
    show offset + 1 + limit - (offset + 1) = limit by omega]
  rfl

/-- A checked read succeeds exactly inside memory, with the byte that is there. -/
theorem readByte_eq_ok {m : Memory} {offset : Nat} {byte : UInt8} :
    m.readByte offset = .ok byte ↔ ∃ h, m.byteAt offset h = byte := by
  unfold readByte
  constructor
  · intro h
    split at h <;> cases h
    next hfits => exact ⟨hfits, rfl⟩
  · rintro ⟨hfits, rfl⟩
    exact dif_pos hfits

/-- What a checked read gives is what a window at the same offset starts with. -/
theorem window_of_readByte {m : Memory} {offset : Nat} {byte : UInt8}
    (h : m.readByte offset = .ok byte) (limit : Nat) :
    m.window offset (limit + 1) = byte :: m.window (offset + 1) limit := by
  obtain ⟨hfits, rfl⟩ := readByte_eq_ok.1 h
  exact window_succ limit hfits

/-- The same for a word, which takes two bytes off the window. -/
theorem window_of_readWord {m : Memory} {offset : Nat} {word : UInt16}
    (h : m.readWord offset = .ok word) (limit : Nat) :
    ∃ high low, Word.ofBytes high low = word ∧
      m.window offset (limit + 2) = high :: low :: m.window (offset + 2) limit := by
  unfold readWord at h
  split at h <;> cases h
  next hfits =>
  refine ⟨m.byteAt offset (by omega), m.byteAt (offset + 1) hfits, rfl, ?_⟩
  rw [window_succ (limit + 1) (by omega), window_succ limit hfits]

/-! ### Bytes and words read back -/

theorem readByte_zeroed {size offset : Nat} (h : offset < size) :
    (zeroed size).readByte offset = .ok 0 := by
  refine readByte_eq_ok.2 ⟨by rw [size_zeroed]; exact h, ?_⟩
  simp [byteAt, zeroed]

theorem readByte_setByte_self (m : Memory) (offset : Nat) (value : UInt8) (h) :
    (m.setByte offset value h).readByte offset = .ok value := by
  refine readByte_eq_ok.2 ⟨by rw [size_setByte]; exact h, ?_⟩
  exact Array.getElem_set_self h

theorem readByte_setByte_of_ne (m : Memory) {a b : Nat} (value : UInt8) (ha)
    (h : a ≠ b) :
    (m.setByte a value ha).readByte b = m.readByte b := by
  simp only [readByte, size_setByte]
  split
  · next hb => exact congrArg Except.ok (Array.getElem_set_ne ha hb h)
  · rfl

@[simp] theorem wordAt_setWord (m : Memory) (offset : Nat) (value : UInt16) (h)
    (h') :
    (m.setWord offset value h).wordAt offset h' = value := by
  simp [setWord, wordAt, Array.getElem_set]

/-- Words that do not overlap are independent.  The condition allows for words
at odd distances, which the registers never need but main memory does. -/
theorem wordAt_setWord_of_disjoint (m : Memory) {a b : Nat} (value : UInt16)
    (ha) (hb) (hb') (h : a + 2 ≤ b ∨ b + 2 ≤ a) :
    (m.setWord a value ha).wordAt b hb = m.wordAt b hb' := by
  simp only [wordAt, setWord, Array.getElem_set]
  rw [if_neg (by omega), if_neg (by omega), if_neg (by omega), if_neg (by omega)]
  rfl

theorem readWord_of_le {m : Memory} {offset : Nat} (h : offset + 2 ≤ m.size) :
    m.readWord offset = .ok (m.wordAt offset h) := dif_pos h

/-- A word that is read lies in memory. -/
theorem fits_of_readWord {m : Memory} {offset : Nat} {word : UInt16}
    (h : m.readWord offset = .ok word) : offset + 2 ≤ m.size := by
  unfold readWord at h
  split at h
  · assumption
  · cases h

theorem readWord_of_lt {m : Memory} {offset : Nat} (h : m.size < offset + 2) :
    m.readWord offset = .error ⟨offset, 2, m.size⟩ := dif_neg (Nat.not_le.2 h)

/-- A word is read back where it was written. -/
theorem readWord_setWord_self (m : Memory) (offset : Nat) (value : UInt16) (h) :
    (m.setWord offset value h).readWord offset = .ok value := by
  rw [readWord_of_le (by rw [size_setWord]; exact h), wordAt_setWord]

/-- The same of a checked write, which has tested the bound already. -/
theorem readWord_of_writeWord {m m' : Memory} {offset : Nat} {value : UInt16}
    (h : m.writeWord offset value = .ok m') : m'.readWord offset = .ok value := by
  unfold writeWord at h
  split at h <;> cases h
  exact readWord_setWord_self ..

theorem size_of_writeWord {m m' : Memory} {offset : Nat} {value : UInt16}
    (h : m.writeWord offset value = .ok m') : m'.size = m.size := by
  unfold writeWord at h
  split at h <;> cases h
  exact size_setWord ..

/-- A word that is written changes none of those that it does not overlap. -/
theorem readWord_setWord_of_disjoint (m : Memory) {a b : Nat} (value : UInt16)
    (ha) (h : a + 2 ≤ b ∨ b + 2 ≤ a) :
    (m.setWord a value ha).readWord b = m.readWord b := by
  simp only [readWord, size_setWord]
  split
  · rw [wordAt_setWord_of_disjoint m value ha _ _ h]
  · rfl

end Memory

end StackMachine
