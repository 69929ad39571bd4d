import StackMachine.Proofs.Pushes

/-!
# The test for room on the stack

A machine can be asked whether there is room for a number of words before any of
them is pushed. The answer depends neither on what the words are nor on where
among them the pointer wraps around, and it is the one that the pushes
themselves would give.

## Main definitions

* `Word.within?` — a number, unless it is too large for so many bits
* `Machine.scanRoom?` — the test slot by slot, with every number kept within its
  bits

## Main statements

* `Machine.scanRoom?_eq` — no number in the test is too large, as far as half
  the addresses go
* `Machine.pushAll_eq_ok_iff`, `Machine.pushAll_eq_error_iff` — the pushes by
  the test
* `Machine.room_test_predicts_pushes` — all of this for any number of words up
  to that

## Design notes

**A slot is found from its number** by one subtraction, and not by moving the
pointer.  The distance of a slot is twice its number, which for the slots from
32768 on is no word any more.
-/

namespace StackMachine

/-- A number, if it can be written with so many bits. -/
def Word.within? (bits n : Nat) : Option Nat :=
  if n < Nat.pow 2 bits then some n else none

namespace Machine

/-- Whether so many slots, from the `i`-th on, lie inside memory, and
else what is wrong with the first that does not.  A distance is a word,
and an end is an offset of sixty-four bits; nothing comes of it where
one of them is too large. -/
def scanRoom? (m : Machine) (i : Nat) :
    (slots : Nat) → Option (Except OutOfBounds Unit)
  | 0 => some (.ok ())
  | slots + 1 => do
    let distance ← Word.within? 16 (i * 2)
    let start := (m.sp - UInt16.ofNat distance).toNat
    let stop ← Word.within? 64 (start + 2)
    if m.memory.size < stop then return .error ⟨start, 2, m.memory.size⟩
    else m.scanRoom? (i + 1) slots

variable {m m' : Machine} {values : List UInt16} {i slots : Nat} {e : OutOfBounds}

/-! ### Numbers within their bits -/

/-- One slot of the test.  Its distance fits sixteen bits as long as the slot is
one of the first 32768, and the end of a word fits sixty-four in any case. -/
theorem scanRoom?_succ (h : i < 32768) :
    m.scanRoom? i (slots + 1) =
      if m.memory.size < (slot m.sp i).toNat + 2 then
        some (.error ⟨(slot m.sp i).toNat, 2, m.memory.size⟩)
      else m.scanRoom? (i + 1) slots := by
  have hdistance : Word.within? 16 (i * 2) = some (i * 2) := by
    refine if_pos ?_
    show i * 2 < 65536
    omega
  have hstop : Word.within? 64 ((slot m.sp i).toNat + 2) =
      some ((slot m.sp i).toNat + 2) := by
    have hword := (slot m.sp i).toNat_lt
    refine if_pos ?_
    show _ < 18446744073709551616
    omega
  have hslot : m.sp - UInt16.ofNat (i * 2) = slot m.sp i := by
    rw [slot, Nat.mul_comm]
  rw [scanRoom?, hdistance]
  simp only [Option.bind_eq_bind, Option.bind_some, hslot, hstop]
  rfl

/-- Slot by slot, the first that does not lie inside memory is found.  All
slots up to the last have to be among the first 32768, since the test may
get as far as that. -/
theorem scanRoom?_eq_find? (h : i + slots ≤ 32768) :
    m.scanRoom? i slots =
      some (match (List.range' i slots).find? fun j => m.memory.size <
        (slot m.sp j).toNat + 2 with
        | none => .ok ()
        | some j => .error ⟨(slot m.sp j).toNat, 2, m.memory.size⟩) := by
  induction slots generalizing i with
  | zero => rfl
  | succ slots ih =>
    rw [scanRoom?_succ (by omega), List.range'_succ, List.find?_cons]
    by_cases hout : m.memory.size < (slot m.sp i).toNat + 2
    · rw [if_pos hout, decide_eq_true hout]
    · rw [if_neg hout, decide_eq_false hout]
      exact ih (by omega)

/-- With its numbers kept within their bits, the test is the one that the
machine makes without.  No number in it has been too large. -/
theorem scanRoom?_eq {words : Nat} (h : words ≤ 32768) :
    m.scanRoom? 0 words = some (m.checkRoom words) := by
  rw [scanRoom?_eq_find? (by omega), ← List.range_eq_range']
  rfl

/-! ### The pushes by the test -/

/-- Words can be pushed one after another exactly if the test finds room for so
many.  What the words are does not enter into it. -/
theorem pushAll_eq_ok_iff :
    (∃ m', pushAll values m = .ok () m') ↔ m.checkRoom values.length = .ok () := by
  constructor
  · rintro ⟨m', hrun⟩
    cases hroom : m.checkRoom values.length with
    | ok => rfl
    | error e =>
      obtain ⟨m₁, hfails⟩ := pushAll_of_no_room hroom
      rw [hfails] at hrun
      cases hrun
  · exact fun hroom => ⟨_, pushAll_of_room hroom⟩

/-- A push that fails leaves the machine as it was.  So the machine in front of
the first push to fail is the one that is found behind it. -/
theorem push_eq_error {value : UInt16} {fault : Fault}
    (h : push value m = .error fault m') :
    m' = m := by
  rcases Nat.lt_or_ge m.memory.size (m.sp.toNat + 2) with hout | hfits
  · rw [push_of_lt value hout] at h
    cases h
    rfl
  · rw [push_eq_pushed value hfits] at h
    cases h

/-- The first push to fail, behind those that succeed, complains as the test
does.  Both name the slot that this push would have written. -/
theorem pushAll_eq_error_iff :
    (∃ before value after m', values = before ++ value :: after ∧
        pushAll before m = .ok () m' ∧ push value m' = .error (.memory e) m') ↔
      m.checkRoom values.length = .error e := by
  constructor
  · rintro ⟨before, value, after, m', hsplit, hbefore, hfails⟩
    have hrun : pushAll values m = .error (.memory e) m' :=
      Action.forM_eq_error.2 ⟨before, value, after, m', hsplit, hbefore, hfails⟩
    cases hroom : m.checkRoom values.length with
    | ok =>
      rw [pushAll_of_room hroom] at hrun
      cases hrun
    | error cause =>
      obtain ⟨m₁, htest⟩ := pushAll_of_no_room hroom
      rw [htest] at hrun
      cases hrun
      rfl
  · intro hroom
    obtain ⟨m₁, hrun⟩ := pushAll_of_no_room hroom
    obtain ⟨before, value, after, m', hsplit, hbefore, hfails⟩ :=
      Action.forM_eq_error.1 hrun
    obtain rfl := push_eq_error hfails
    exact ⟨before, value, after, _, hsplit, hbefore, hfails⟩

/-- For up to 32768 words the test for room makes no number that is too large
for its type, and foretells the pushes of any words, so many of them, one after
another: there is room exactly if each push succeeds, and if there is not, the
complaint of the test is that of the first push to fail. -/
theorem room_test_predicts_pushes (m : Machine) (words : Nat) (h : words ≤ 32768) :
    m.scanRoom? 0 words = some (m.checkRoom words) ∧
      ∀ values : List UInt16, values.length = words →
        (m.checkRoom words = .ok () ↔ ∃ m', pushAll values m = .ok () m') ∧
          ∀ e, m.checkRoom words = .error e ↔
            ∃ before value after m', values = before ++ value :: after ∧
              pushAll before m = .ok () m' ∧
                push value m' = .error (.memory e) m' := by
  refine ⟨scanRoom?_eq h, ?_⟩
  rintro values rfl
  exact ⟨pushAll_eq_ok_iff.symm, fun e => pushAll_eq_error_iff.symm⟩

/-- Six bytes of memory, with two slots at the stack pointer and below it. -/
def twoSlotsLeft : Machine := (fresh (Memory.zeroed 6) .strict).setRegister .sp 2

/-- Of three pushes the last one wraps around, and is foretold to fail
at the end of the address space.  The first two take the slots at
addresses two and zero. -/
theorem third_push_foretold :
    twoSlotsLeft.checkRoom 3 = .error ⟨65534, 2, 6⟩ ∧
      ∃ before value after m', [0x1111, 0x2222, 0x3333] = before ++ value :: after ∧
        pushAll before twoSlotsLeft = .ok () m' ∧
          push value m' = .error (.memory ⟨65534, 2, 6⟩) m' := by
  have hroom : twoSlotsLeft.checkRoom 3 = .error ⟨65534, 2, 6⟩ := by decide
  obtain ⟨-, hpushes⟩ := room_test_predicts_pushes twoSlotsLeft 3 (by decide)
  obtain ⟨-, hcomplaint⟩ := hpushes [0x1111, 0x2222, 0x3333] rfl
  exact ⟨hroom, (hcomplaint _).1 hroom⟩

end Machine

end StackMachine
