import Mathlib.Tactic.Common
import StackMachine.Memory

/-!
# A memory and its history

A memory is asked to read, to write and to clear itself, and some of the
requests do not fit.  What it answers depends on nothing but its size and the
requests made before: a read gives, byte by byte, what was written there last,
whatever the width of the write and wherever it started.

## Main definitions

* `Memory.Request`, `Memory.Reply` — an access with all that it is given, and
  what it gives back
* `Memory.serve` — one request
* `Memory.afterwards` — a memory that began with zeros, behind a row of requests
* `Memory.lastWritten` — the byte that a history has left at an offset, told
  without a memory
* `Memory.contents` — the byte that a memory has at an offset

## Main statements

* `Memory.contents_overwrite` — what a write of any width does to the bytes
* `Memory.serve_of_fits`, `Memory.serve_of_not_fits` — one request
* `Memory.contents_afterwards` — the bytes of a memory are those last written
* `Memory.requests_served_by_history` — every answer, and every memory, in a row
  of requests

## Design notes

**One kind of write.**  A byte is written as the block of its one byte and a
word as the block of its two, the high one first.  So writes that overlap at odd
distances need no cases of their own.

**Bytes everywhere.**  `Memory.contents` is zero outside the memory.  No request
that fits writes there, so the bytes of a memory and those of its history are
the same function, with no bound on the offset.
-/

namespace StackMachine.Memory

/-! ### Requests -/

/-- An access to a memory with all that it is given. -/
inductive Request where
  | readByte (offset : Nat)
  | readWord (offset : Nat)
  | slice (offset count : Nat)
  | writeByte (offset : Nat) (value : UInt8)
  | writeWord (offset : Nat) (value : UInt16)
  | load (offset : Nat) (data : List UInt8)
  | clear
deriving DecidableEq, Repr

/-- What a request that fits gives back. -/
inductive Reply where
  /-- Nothing but that it is done. -/
  | done
  | byte (value : UInt8)
  | word (value : UInt16)
  | bytes (values : List UInt8)
deriving DecidableEq, Repr

namespace Request

/-- Where a request starts.  A clear is not about a place. -/
def offset : Request → Nat
  | readByte offset | readWord offset | slice offset _ => offset
  | writeByte offset _ | writeWord offset _ | load offset _ => offset
  | clear => 0

/-- How many bytes a request asks for. -/
def count : Request → Nat
  | readByte _ | writeByte _ _ => 1
  | readWord _ | writeWord _ _ => 2
  | slice _ count => count
  | load _ data => data.length
  | clear => 0

/-- The bytes that a request writes from its offset on; those of a word are the
high one and the low one. -/
def data : Request → List UInt8
  | readByte _ | readWord _ | slice _ _ | clear => []
  | writeByte _ value => [value]
  | writeWord _ value => Word.toBytes value
  | load _ data => data

/-- All that a request asks for lies inside a memory of some size. -/
def Fits (request : Request) (size : Nat) : Prop :=
  request.offset + request.count ≤ size

instance (request : Request) (size : Nat) : Decidable (request.Fits size) :=
  inferInstanceAs (Decidable (_ ≤ _))

/-- The byte that a request puts at an offset of a memory of some size, if
it puts one there. -/
def puts? (size offset : Nat) : Request → Option UInt8
  | clear => some 0
  | request =>
    if request.Fits size ∧ request.offset ≤ offset then
      request.data[offset - request.offset]?
    else none

/-- What a request that fits gives back, if the bytes are these. -/
def reply (contents : Nat → UInt8) : Request → Reply
  | readByte offset => .byte (contents offset)
  | readWord offset =>
    .word (Word.ofBytes (contents offset) (contents (offset + 1)))
  | slice offset count =>
    .bytes ((List.range count).map fun i => contents (offset + i))
  | writeByte _ _ | writeWord _ _ | load _ _ | clear => .done

end Request

/-- The answer to a write and the memory behind it, which is the old one if
the write failed. -/
def settle (m : Memory) :
    Except OutOfBounds Memory → Except OutOfBounds Reply × Memory
  | .ok written => (.ok .done, written)
  | .error e => (.error e, m)

/-- The answer to a request and the memory behind it. -/
def serve (m : Memory) : Request → Except OutOfBounds Reply × Memory
  | .readByte offset => (.byte <$> m.readByte offset, m)
  | .readWord offset => (.word <$> m.readWord offset, m)
  | .slice offset count => (.bytes <$> m.slice offset count, m)
  | .writeByte offset value => m.settle (m.writeByte offset value)
  | .writeWord offset value => m.settle (m.writeWord offset value)
  | .load offset data => m.settle (m.load offset data)
  | .clear => (.ok .done, m.clear)

/-- A memory of some size that began with zeros, behind a row of requests,
the latest first. -/
def afterwards (size : Nat) : (history : List Request) → Memory
  | [] => zeroed size
  | request :: earlier => ((afterwards size earlier).serve request).2

/-- The byte that the latest of some requests to write to an offset has left
there, and zero if there is none.  The latest request comes first. -/
def lastWritten (size : Nat) : (history : List Request) → (offset : Nat) → UInt8
  | [], _ => 0
  | request :: earlier, offset =>
    (request.puts? size offset).getD (lastWritten size earlier offset)

/-! ### Bytes -/

/-- The byte that a memory has at an offset, and zero outside. -/
def contents (m : Memory) (offset : Nat) : UInt8 := m.bytes.getD offset 0

variable {m : Memory} {offset count : Nat}

/-- The bytes of a memory as a function of all offsets, inside and outside. What
is read can then be compared without a proof of its bound. -/
theorem byteAt_eq_contents (h : offset + 1 ≤ m.size) :
    m.byteAt offset h = m.contents offset := by
  have hlt : offset < m.bytes.size := h
  rw [contents, Array.getD, dif_pos hlt]
  rfl

theorem wordAt_eq_contents (h : offset + 2 ≤ m.size) :
    m.wordAt offset h = Word.ofBytes (m.contents offset)
      (m.contents (offset + 1)) := by
  rw [← byteAt_eq_contents (by omega), ← byteAt_eq_contents (by omega)]
  rfl

/-- A window that fits is a row of these bytes. -/
theorem window_eq_contents (h : offset + count ≤ m.size) :
    m.window offset count = (List.range count).map fun i =>
      m.contents (offset + i) := by
  induction count generalizing offset with
  | zero => simp [window]
  | succ count ih =>
    rw [window_succ count (by omega), byteAt_eq_contents, ih (by omega),
      List.range_succ_eq_map, List.map_cons, List.map_map, Nat.add_zero]
    congr 2
    funext i
    simp only [Function.comp_apply]
    congr 1
    omega

theorem contents_zeroed (size : Nat) : (zeroed size).contents = fun _ => 0 := by
  funext offset
  simp [contents, zeroed, Array.getD_eq_getD_getElem?, Array.getElem?_replicate]
  split <;> rfl

theorem contents_clear (m : Memory) : m.clear.contents = fun _ => 0 := by
  funext offset
  simp [contents, clear, Array.getD_eq_getD_getElem?]
  cases m.bytes[offset]? <;> rfl

theorem setByte_eq_overwrite (value : UInt8) (h : offset + 1 ≤ m.size) :
    m.setByte offset value h = m.overwrite offset [value] := by
  have hlt : offset < m.bytes.size := h
  simp [setByte, overwrite, Array.setIfInBounds, hlt]

/-- A word that is written is a block of two, its high byte first.  All writes
are blocks, so one lemma about blocks is enough. -/
theorem setWord_eq_overwrite (value : UInt16) (h : offset + 2 ≤ m.size) :
    m.setWord offset value h = m.overwrite offset (Word.toBytes value) := by
  have hlow : offset + 1 < m.bytes.size := h
  have hhigh : offset < m.bytes.size := Nat.lt_of_succ_lt h
  simp [setWord, overwrite, Word.toBytes, Array.setIfInBounds, hlow, hhigh]

/-- A block that is written is found where it was put, and the other bytes
are what they were. -/
theorem contents_overwrite {data : List UInt8}
    (h : offset + data.length ≤ m.size) (a : Nat) :
    (m.overwrite offset data).contents a =
      (if offset ≤ a then data[a - offset]? else none).getD (m.contents a) := by
  induction data generalizing m offset with
  | nil => simp [overwrite]
  | cons value rest ih =>
    rw [List.length_cons] at h
    have hlt : offset < m.bytes.size := by simp only [size] at h; omega
    have hsize :
        size ⟨m.bytes.setIfInBounds offset value⟩ = m.size := by simp [size]
    have hone : contents ⟨m.bytes.setIfInBounds offset value⟩ a =
        if offset = a then value else m.contents a := by
      simp only [contents, Array.getD_eq_getD_getElem?,
        Array.getElem?_setIfInBounds]
      split
      · next ha => subst ha; simp
      · rfl
    rw [overwrite, ih (by rw [hsize]; omega), hone]
    rcases Nat.lt_trichotomy a offset with ha | rfl | ha
    · rw [if_neg (by omega), if_neg (by omega), if_neg (by omega)]
    · rw [if_neg (by omega), if_pos rfl, if_pos (Nat.le_refl a), Nat.sub_self]
      rfl
    · have hsub : a - offset = a - (offset + 1) + 1 := by omega
      rw [if_pos (by omega), if_neg (by omega), if_pos (by omega), hsub,
        List.getElem?_cons_succ]

/-! ### Operations that fit -/

theorem readByte_of_le (h : offset + 1 ≤ m.size) :
    m.readByte offset = .ok (m.contents offset) := by
  rw [readByte, dif_pos h, byteAt_eq_contents]

theorem slice_of_le (h : offset + count ≤ m.size) :
    m.slice offset count =
      .ok ((List.range count).map fun i => m.contents (offset + i)) := by
  have hcheck : m.check offset count = .ok () := if_pos h
  rw [slice, hcheck, ← window_eq_contents h]
  rfl

theorem writeByte_of_le (value : UInt8) (h : offset + 1 ≤ m.size) :
    m.writeByte offset value = .ok (m.overwrite offset [value]) := by
  rw [writeByte, dif_pos h, setByte_eq_overwrite]

theorem writeWord_of_le (value : UInt16) (h : offset + 2 ≤ m.size) :
    m.writeWord offset value = .ok (m.overwrite offset (Word.toBytes value)) := by
  rw [writeWord, dif_pos h, setWord_eq_overwrite]

theorem load_of_le {data : List UInt8} (h : offset + data.length ≤ m.size) :
    m.load offset data = .ok (m.overwrite offset data) := by
  have hcheck : m.check offset data.length = .ok () := if_pos h
  rw [load, hcheck]
  rfl

/-! ### One request -/

/-- The memory behind a request that fits. -/
def written (m : Memory) : Request → Memory
  | .clear => m.clear
  | request => m.overwrite request.offset request.data

variable {request : Request}

/-- Every request other than to clear writes a block, though it may be an empty
one. -/
theorem written_of_ne (h : request ≠ .clear) :
    m.written request = m.overwrite request.offset request.data := by
  cases request with
  | clear => exact absurd rfl h
  | _ => rfl

/-- What a request puts at an offset, if it fits and reaches there. -/
theorem Request.puts?_of_ne {size : Nat} (h : request ≠ .clear) (a : Nat) :
    request.puts? size a =
      if request.Fits size ∧ request.offset ≤ a then
        request.data[a - request.offset]?
      else none := by
  cases request with
  | clear => exact absurd rfl h
  | _ => rfl

/-- A request writes no more bytes than it asks for. -/
theorem Request.length_data_le (request : Request) :
    request.data.length ≤ request.count := by
  cases request <;> simp [data, count]

theorem Request.fits_clear (size : Nat) : Request.clear.Fits size :=
  Nat.zero_le size

/-- A request that does not fit puts nothing anywhere. -/
theorem Request.puts?_of_not_fits {size : Nat} (h : ¬request.Fits size) (a : Nat) :
    request.puts? size a = none := by
  have hne : request ≠ .clear := by
    rintro rfl
    exact h (fits_clear size)
  rw [puts?_of_ne hne, if_neg (fun both => h both.1)]

@[simp] theorem size_written (m : Memory) (request : Request) :
    (m.written request).size = m.size := by
  cases request with
  | clear => exact size_clear m
  | _ => exact size_overwrite ..

/-- Behind a request, a byte is what the request puts there, or else what it was. -/
theorem contents_written (h : request.Fits m.size) (a : Nat) :
    (m.written request).contents a =
      (request.puts? m.size a).getD (m.contents a) := by
  by_cases hclear : request = .clear
  · subst hclear
    exact congrFun (contents_clear m) a
  · have hlength := request.length_data_le
    have hfits : request.offset + request.data.length ≤ m.size :=
      Nat.le_trans (Nat.add_le_add_left hlength _) h
    rw [written_of_ne hclear, contents_overwrite hfits, Request.puts?_of_ne hclear]
    simp only [h, true_and]

/-- A request that fits succeeds, with what it asks for and what it writes. -/
theorem serve_of_fits (h : request.Fits m.size) :
    m.serve request = (.ok (request.reply m.contents), m.written request) := by
  cases request with
  | readByte offset =>
    have hfits : offset + 1 ≤ m.size := h
    rw [serve, readByte_of_le hfits]
    rfl
  | readWord offset =>
    have hfits : offset + 2 ≤ m.size := h
    rw [serve, readWord_of_le hfits, wordAt_eq_contents]
    rfl
  | slice offset count =>
    have hfits : offset + count ≤ m.size := h
    rw [serve, slice_of_le hfits]
    rfl
  | writeByte offset value =>
    have hfits : offset + 1 ≤ m.size := h
    rw [serve, writeByte_of_le value hfits]
    rfl
  | writeWord offset value =>
    have hfits : offset + 2 ≤ m.size := h
    rw [serve, writeWord_of_le value hfits]
    rfl
  | load offset data =>
    have hfits : offset + data.length ≤ m.size := h
    rw [serve, load_of_le hfits]
    rfl
  | clear => rfl

/-- A request that does not fit fails, names what it asked for and changes
nothing.  No part of a block is written first. -/
theorem serve_of_not_fits (h : ¬request.Fits m.size) :
    m.serve request = (.error ⟨request.offset, request.count, m.size⟩, m) := by
  cases request with
  | readByte offset =>
    have hread : m.readByte offset = .error ⟨offset, 1, m.size⟩ := dif_neg h
    rw [serve, hread]
    rfl
  | readWord offset =>
    have hread : m.readWord offset = .error ⟨offset, 2, m.size⟩ := dif_neg h
    rw [serve, hread]
    rfl
  | slice offset count =>
    have hcheck : m.check offset count = .error ⟨offset, count, m.size⟩ := if_neg h
    rw [serve, slice, hcheck]
    rfl
  | writeByte offset value =>
    have hwrite : m.writeByte offset value = .error ⟨offset, 1, m.size⟩ := dif_neg h
    rw [serve, hwrite]
    rfl
  | writeWord offset value =>
    have hwrite : m.writeWord offset value = .error ⟨offset, 2, m.size⟩ := dif_neg h
    rw [serve, hwrite]
    rfl
  | load offset data =>
    have hcheck : m.check offset data.length =
        .error ⟨offset, data.length, m.size⟩ := if_neg h
    rw [serve, load, hcheck]
    rfl
  | clear => exact absurd (Request.fits_clear m.size) h

/-- No request adds or removes a byte. -/
@[simp] theorem size_serve (m : Memory) (request : Request) :
    (m.serve request).2.size = m.size := by
  by_cases h : request.Fits m.size
  · rw [serve_of_fits h, size_written]
  · rw [serve_of_not_fits h]

/-! ### Rows of requests -/

@[simp] theorem size_afterwards (size : Nat) (history : List Request) :
    (afterwards size history).size = size := by
  induction history with
  | nil => exact size_zeroed size
  | cons request earlier ih => rw [afterwards, size_serve, ih]

/-- The bytes of a memory are those last written.  The history alone says which
these are, without a memory that is changed on the way. -/
theorem contents_afterwards (size : Nat) (history : List Request) :
    (afterwards size history).contents = lastWritten size history := by
  induction history with
  | nil => exact contents_zeroed size
  | cons request earlier ih =>
    funext a
    rw [afterwards, lastWritten]
    by_cases h : request.Fits (afterwards size earlier).size
    · rw [serve_of_fits h, contents_written h, ih, size_afterwards]
    · rw [serve_of_not_fits h, ih]
      rw [size_afterwards] at h
      rw [Request.puts?_of_not_fits h]
      rfl

/-- Behind any row of requests, a request succeeds exactly if it fits, and gives
back what was written last.  One that fails says what it asked for and of how
large a memory, and changes nothing.  The memory keeps its size. -/
theorem requests_served_by_history (size : Nat) (earlier : List Request)
    (request : Request) :
    (afterwards size (request :: earlier)).size = size ∧
      (if request.offset + request.count ≤ size then
        ((afterwards size earlier).serve request).1 =
          .ok (request.reply (lastWritten size earlier))
      else
        ((afterwards size earlier).serve request).1 =
            .error ⟨request.offset, request.count, size⟩ ∧
          afterwards size (request :: earlier) = afterwards size earlier) := by
  refine ⟨size_afterwards size (request :: earlier), ?_⟩
  have hsize := size_afterwards size earlier
  split
  · next h =>
    have hfits : request.Fits (afterwards size earlier).size := by rwa [hsize]
    rw [serve_of_fits hfits, contents_afterwards]
  · next h =>
    have hfits : ¬request.Fits (afterwards size earlier).size := by rwa [hsize]
    rw [afterwards, serve_of_not_fits hfits, hsize]
    exact ⟨rfl, rfl⟩

-- A word of which one byte has been overwritten, behind a block that did not
-- fit.
example :
    ((afterwards 4 [.load 3 [7, 7], .writeByte 2 0xff, .writeWord 1 0x1234]).serve
      (.readWord 1)).1 = .ok (.word 0x12ff) := rfl

end StackMachine.Memory
