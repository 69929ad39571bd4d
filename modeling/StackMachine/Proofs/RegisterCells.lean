import StackMachine.Proofs.MemoryHistory
import StackMachine.Proofs.RoundTrip

/-!
# The cells of a register bank

A bank comes from nothing, from a memory or from a text, and then registers are
set and all of them are cleared, in any order.  Each register holds the word
that was last put there, and no access to the memory under the bank ever fails.

## Main definitions

* `Bank.Source`, `Bank.Source.memory?`, `Bank.Source.bank?` — where a bank comes
  from
* `Bank.Update`, `Bank.afterwards` — what is done to a bank, and the bank after
  it
* `Bank.lastSet` — the word that a history has left in a register, told without
  a bank
* `Memory.updated` — the same updates as accesses to a bare memory, each of
  which is checked

## Main statements

* `Bank.bank?_eq_some_iff` — a source gives a bank if it gives a memory of the
  size of one
* `Bank.updated_memory` — the accesses to the memory of a bank do not fail
* `Bank.get_afterwards` — a register holds what was last put there
* `Bank.cells_are_independent` — all of this for every source and every history

## Design notes

**That no access fails is said of the memory.**  A bank has its size in its
type, so `Bank.get` and `Bank.set` have nothing to check.  What they stand for
is an access to a memory that checks its bounds, and such accesses are made here
to a memory about which nothing is known beforehand.
-/

namespace StackMachine

namespace Bank

/-- Where a bank may come from. -/
inductive Source where
  /-- Every register is zero. -/
  | fresh
  /-- A memory is taken as the bank. -/
  | memory (m : Memory)
  /-- A document is decoded. -/
  | text (text : String)

/-- What may be done to a bank. -/
inductive Update where
  /-- A word is put into a register. -/
  | set (r : Register) (value : UInt16)
  /-- Every register is set to zero. -/
  | clear
deriving DecidableEq, Repr

/-- The bank after one update. -/
def update (b : Bank) : Update → Bank
  | .set r value => b.set r value
  | .clear => b.clear

/-- The bank behind a row of updates, the latest first. -/
def afterwards (b : Bank) : (history : List Update) → Bank
  | [] => b
  | update :: earlier => (b.afterwards earlier).update update

/-- The word that the latest of some updates to reach a register has left
there, and the one that was there at first if there is none.  The latest
update comes first. -/
def lastSet (r : Register) (first : UInt16) : (history : List Update) → UInt16
  | [] => first
  | .set s value :: earlier => if s = r then value else lastSet r first earlier
  | .clear :: _ => 0

namespace Source

/-- The memory that a source gives, whatever its size. -/
def memory? : Source → Option Memory
  | fresh => some (Memory.zeroed 24)
  | memory m => some m
  | text source => Json.decode Memory.ofJson? source

/-- The bank that a source gives. -/
def bank? : Source → Option Bank
  | fresh => some zeroed
  | memory m => (ofMemory m).toOption
  | text source => Json.decode ofJson? source

end Source

end Bank

namespace Memory

open Bank (Update)

/-- A memory after one update of the registers in it, each access being checked. -/
def update (m : Memory) : Update → Except OutOfBounds Memory
  | .set r value => m.writeWord r.offset value
  | .clear => .ok m.clear

/-- A memory behind a row of updates of the registers in it, the latest first,
unless one of the accesses fails. -/
def updated (m : Memory) : (history : List Update) → Except OutOfBounds Memory
  | [] => .ok m
  | update :: earlier => (m.updated earlier).bind (·.update update)

end Memory

namespace Bank

variable {b : Bank} {m : Memory} {source : Source}

/-! ### Where a bank comes from -/

/-- A memory is a bank exactly if it has the size of one. -/
theorem ofMemory_eq_ok_iff : ofMemory m = .ok b ↔ m.size = 24 ∧ b.memory = m := by
  unfold ofMemory
  constructor
  · intro h
    split at h <;> cases h
    next hsize => exact ⟨hsize, rfl⟩
  · rintro ⟨hsize, rfl⟩
    exact dif_pos hsize

theorem ofJson?_eq (document : Json) :
    ofJson? document = (Memory.ofJson? document).bind fun m =>
      (ofMemory m).toOption := by
  refine Option.bind_congr fun m _ => ?_
  unfold ofMemory
  split <;> rfl

/-- Every source gives a memory first, which is then tested. -/
theorem bank?_eq (source : Source) :
    source.bank? = source.memory?.bind fun m => (ofMemory m).toOption := by
  cases source with
  | fresh => rfl
  | memory m => rfl
  | text source =>
    show (Json.parse? source).bind ofJson? =
      ((Json.parse? source).bind Memory.ofJson?).bind _
    rw [Option.bind_assoc, funext ofJson?_eq]

theorem toOption_ofMemory_eq_some_iff :
    (ofMemory m).toOption = some b ↔ m.size = 24 ∧ b.memory = m := by
  rw [← ofMemory_eq_ok_iff]
  cases ofMemory m <;> simp [Except.toOption]

/-- A source gives a bank exactly if it gives a memory of the size of one,
which is then the memory of the bank.  So no bank has another size,
wherever it comes from. -/
theorem bank?_eq_some_iff :
    source.bank? = some b ↔ ∃ m, source.memory? = some m ∧ m.size = 24 ∧
      b.memory = m := by
  rw [bank?_eq, Option.bind_eq_some_iff]
  simp only [toOption_ofMemory_eq_some_iff]

/-! ### Accesses to the memory of a bank -/

/-- To read a register as a word of the memory does not fail. -/
theorem readWord_memory (b : Bank) (r : Register) :
    b.memory.readWord r.offset = .ok (b.get r) :=
  Memory.readWord_of_le (b.offset_le r)

/-- To write one does not fail either, and leaves a bank. -/
theorem writeWord_memory (b : Bank) (r : Register) (value : UInt16) :
    b.memory.writeWord r.offset value = .ok (b.set r value).memory :=
  dif_pos (b.offset_le r)

/-- Updates of the registers in the memory of a bank do not fail, and do what
they do to the bank.  The bounds that memory tests are met along any history. -/
theorem updated_memory (b : Bank) (history : List Update) :
    b.memory.updated history = .ok (b.afterwards history).memory := by
  induction history with
  | nil => rfl
  | cons update earlier ih =>
    rw [Memory.updated, ih]
    cases update with
    | set r value => exact writeWord_memory (b.afterwards earlier) r value
    | clear => rfl

/-! ### What a register holds -/

/-- What a raw position gives, by the list of all registers. -/
theorem readIndex_eq_dite (b : Bank) (i : UInt8) :
    b.readIndex i =
      if h : i.toNat < 12 then .ok (b.get (Register.all.get ⟨i.toNat, h⟩))
      else .error ⟨2 * i.toNat, 2, 24⟩ := by
  rw [readIndex_eq]
  by_cases h : i.toNat < 12
  · have hfound :
        Register.ofIndex? i.toNat = some (Register.all.get ⟨i.toNat, h⟩) :=
      List.getElem?_eq_getElem h
    rw [hfound, dif_pos h]
  · rw [Register.ofIndex?_eq_none_iff.2 (Nat.not_lt.1 h), dif_neg h]

@[simp] theorem get_clear (b : Bank) (r : Register) : b.clear.get r = 0 := by
  have hfits := b.clear.offset_le r
  have hzero : b.clear.memory.contents = fun _ => 0 :=
    Memory.contents_clear b.memory
  rw [get, Memory.wordAt_eq_contents hfits, hzero]
  rfl

/-- A register holds what was last put there.  The history of the other
registers plays no part in it. -/
theorem get_afterwards (b : Bank) (history : List Update) (r : Register) :
    (b.afterwards history).get r = lastSet r (b.get r) history := by
  induction history with
  | nil => rfl
  | cons update earlier ih =>
    cases update with
    | set s value =>
      rw [lastSet, ← ih]
      exact get_set (b.afterwards earlier) s r value
    | clear => exact get_clear (b.afterwards earlier) r

/-- The second bank is the first after a history, and is twelve
independent cells. -/
structure IsCells (first : Bank) (history : List Update) (b : Bank) : Prop where
  /-- No access to the memory of the first bank has failed. -/
  updated : first.memory.updated history = .ok b.memory
  /-- There is room for the registers and for nothing else. -/
  size : b.memory.size = 24
  /-- A register can be read. -/
  readable : ∀ r, b.memory.readWord r.offset = .ok (b.get r)
  /-- A register can be set. -/
  writable : ∀ r value, b.memory.writeWord r.offset value =
    .ok (b.set r value).memory
  /-- A register holds what was last put there. -/
  held : ∀ r, b.get r = lastSet r (first.get r) history
  /-- Setting a register does not change another one. -/
  independent : ∀ r s value, r ≠ s → (b.set r value).get s = b.get s
  /-- A raw position is that of a register or lies outside the bank. -/
  position : ∀ i : UInt8, b.readIndex i =
    if h : i.toNat < 12 then .ok (b.get (Register.all.get ⟨i.toNat, h⟩))
    else .error ⟨2 * i.toNat, 2, 24⟩
  /-- A selector is a position modulo the number of registers. -/
  selected : ∀ i : UInt8, b.get (Register.ofSelector i) =
    b.get (Register.all.get ⟨i.toNat % 12, Nat.mod_lt _ (by decide)⟩)

/-- From whatever source a bank comes, it has exactly twenty-four bytes, those
of the source, and whatever has been done to it since, it is twelve
independent cells. -/
theorem cells_are_independent :
    (∀ source b, Source.bank? source = some b ↔
      ∃ m, source.memory? = some m ∧ m.size = 24 ∧ b.memory = m) ∧
    (∀ r, zeroed.get r = 0) ∧
    ∀ (first : Bank) (history : List Update),
      IsCells first history (first.afterwards history) := by
  refine ⟨fun _ _ => bank?_eq_some_iff, get_zeroed, ?_⟩
  intro first history
  constructor
  case updated => exact updated_memory first history
  case size => exact (first.afterwards history).size_memory
  case readable => exact readWord_memory (first.afterwards history)
  case writable => exact writeWord_memory (first.afterwards history)
  case held => exact get_afterwards first history
  case independent =>
    exact fun r s value => get_set_of_ne (first.afterwards history) value
  case position => exact readIndex_eq_dite (first.afterwards history)
  case selected => exact fun _ => rfl

end Bank

end StackMachine
