import Mathlib.Data.List.Induction
import Mathlib.Data.List.Infix
import StackMachine.Proofs.CallFrame
import StackMachine.Proofs.StackContents

/-!
# A stack of exact capacity

Pushes and pops alone make of a fresh machine a stack in the textbook sense, as
long as no more words are on it than fit into the memory.  One word more is
refused, unless the memory fills the address space: then the pointer has wrapped
around, and the word goes where the first one is.

## Main definitions

* `StackAccess`, `StackAccess.performAll` — pushes and pops, with what they give
  back
* `StackAccess.held`, `StackAccess.replies` — the same on a list of words
* `StackAccess.WithinCapacity` — accesses that never pop more than was pushed
  and never leave more words than a capacity
* `Machine.StackOf` — a machine that comes from a fresh one by accesses

## Main statements

* `Machine.StackOf.push`, `Machine.StackOf.pop` — one access
* `Machine.performAll_of_withinCapacity` — a row of accesses
* `Machine.StackOf.toNat_sp` — where the pointer of a full stack is
* `Machine.stack_has_exact_capacity` — a row of accesses, and one push too many

## Design notes

**The list knows nothing of the memory.**  What a pop should give back is told
by the accesses before it, on a list without a bound.  The capacity is a
condition on the accesses alone.

**Slots are told by number.**  With so many words on the stack, the next one
goes to the slot of that number (`Machine.slot`), also when the pointer has
wrapped around.
-/

namespace StackMachine

/-- A push or a pop. -/
inductive StackAccess where
  | push (value : UInt16)
  | pop
deriving DecidableEq, Repr

namespace StackAccess

/-- What an access does to a machine; a pop gives back a word. -/
def perform : StackAccess → Action Fault (Option UInt16)
  | push value => do
    Machine.push value
    return none
  | pop => do
    return some (← Machine.pop)

/-- What accesses do to a machine, one after another, with all that they give
back. -/
def performAll (accesses : List StackAccess) :
    Action Fault (List (Option UInt16)) :=
  accesses.mapM perform

/-- The words behind an access, the topmost first. -/
def change (words : List UInt16) : StackAccess → List UInt16
  | push value => value :: words
  | pop => words.tail

/-- The words that were pushed by some accesses and not popped again,
the topmost first. -/
def held (accesses : List StackAccess) : List UInt16 := accesses.foldl change []

/-- What an access behind others should give back: a pop, the topmost
word that they left. -/
def reply (earlier : List StackAccess) : StackAccess → Option UInt16
  | push _ => none
  | pop => (held earlier).head?

/-- What accesses should give back, each by those before it. -/
def replies (accesses : List StackAccess) : List (Option UInt16) :=
  accesses.mapIdx fun k access => reply (accesses.take k) access

/-- Whether an access is a push. -/
def isPush : StackAccess → Bool
  | push _ => true
  | pop => false

/-- How many words are pushed. -/
def pushCount (accesses : List StackAccess) : Nat := accesses.countP isPush

/-- How many words are popped. -/
def popCount (accesses : List StackAccess) : Nat := accesses.countP (!isPush ·)

/-- At no time have more words been popped than pushed, nor are there
more than a capacity. -/
def WithinCapacity (capacity : Nat) (accesses : List StackAccess) : Prop :=
  ∀ earlier, earlier <+: accesses →
    popCount earlier ≤ pushCount earlier ∧
      pushCount earlier ≤ popCount earlier + capacity

variable {capacity : Nat} {accesses : List StackAccess} {access : StackAccess}

/-- The words held behind one more access.  Accesses are done from the front, so
the inductions here take off the last. -/
theorem held_concat (accesses : List StackAccess) (access : StackAccess) :
    held (accesses ++ [access]) = change (held accesses) access := List.foldl_append

theorem replies_concat (accesses : List StackAccess) (access : StackAccess) :
    replies (accesses ++ [access]) =
      replies accesses ++ [reply accesses access] := by
  rw [replies, List.mapIdx_concat, List.take_left]
  refine congrArg (· ++ _) (List.mapIdx_eq_mapIdx_iff.2 fun k hk => ?_)
  rw [List.take_append_of_le_length (Nat.le_of_lt hk)]

/-- Accesses within the capacity have been so before the last of them. -/
theorem WithinCapacity.of_concat
    (h : WithinCapacity capacity (accesses ++ [access])) :
    WithinCapacity capacity accesses :=
  fun earlier hearlier => h earlier (hearlier.trans (List.prefix_append _ _))

theorem counts_push (accesses : List StackAccess) (value : UInt16) :
    pushCount (accesses ++ [push value]) = pushCount accesses + 1 ∧
      popCount (accesses ++ [push value]) = popCount accesses :=
  ⟨List.countP_append, List.countP_append⟩

theorem counts_pop (accesses : List StackAccess) :
    pushCount (accesses ++ [pop]) = pushCount accesses ∧
      popCount (accesses ++ [pop]) = popCount accesses + 1 :=
  ⟨List.countP_append, List.countP_append⟩

/-- As many words are held as were pushed and not popped.  Stated as a sum, this
needs no subtraction of numbers. -/
theorem WithinCapacity.length_held (h : WithinCapacity capacity accesses) :
    (held accesses).length + popCount accesses = pushCount accesses := by
  induction accesses using List.reverseRecOn with
  | nil => rfl
  | append_singleton accesses access ih =>
    have hearlier := ih h.of_concat
    have hall := (h _ List.prefix_rfl).1
    rw [held_concat]
    cases access with
    | push value =>
      obtain ⟨hpush, hpop⟩ := counts_push accesses value
      rw [hpush, hpop, change, List.length_cons]
      omega
    | pop =>
      -- The list would not notice a pop too many; the counts do.
      obtain ⟨hpush, hpop⟩ := counts_pop accesses
      rw [hpush, hpop] at hall ⊢
      rw [change, List.length_tail]
      omega

theorem WithinCapacity.length_le (h : WithinCapacity capacity accesses) :
    (held accesses).length ≤ capacity := by
  have hlength := h.length_held
  have hbound := (h _ List.prefix_rfl).2
  omega

/-- A pop finds a word, since never more was popped than was pushed. -/
theorem WithinCapacity.exists_held
    (h : WithinCapacity capacity (accesses ++ [pop])) :
    ∃ word words, held accesses = word :: words := by
  have hlength := h.of_concat.length_held
  have hbound := (h _ List.prefix_rfl).1
  obtain ⟨hpush, hpop⟩ := counts_pop accesses
  exact List.exists_cons_of_length_pos (by omega)

instance (capacity : Nat) (accesses : List StackAccess) :
    Decidable (WithinCapacity capacity accesses) :=
  decidable_of_iff (∀ earlier ∈ accesses.inits,
      popCount earlier ≤ pushCount earlier ∧
        pushCount earlier ≤ popCount earlier + capacity) (by
    simp only [List.mem_inits, WithinCapacity])

end StackAccess

open StackAccess

namespace Machine

/-- An offset in none of the slots that accesses have pushed to. -/
def Untouched (top : UInt16) (accesses : List StackAccess) (offset : Nat) : Prop :=
  ∀ earlier value, earlier ++ [.push value] <+: accesses →
    offset ≠ (slot top (held earlier).length).toNat ∧
      offset ≠ (slot top (held earlier).length).toNat + 1

/-- A machine that comes by accesses from a fresh one around some memory. -/
structure StackOf (memory : Memory) (policy : OpcodePolicy)
    (accesses : List StackAccess)
    (m : Machine) : Prop where
  /-- The next word goes to the slot whose number is that of the words held. -/
  sp : m.sp = slot (stackTop memory) (held accesses).length
  /-- The words held are the last of the memory. -/
  holds : m.memory.EndsWith (held accesses)
  /-- The words held are counted. -/
  frameBytes : m.frameBytes = UInt16.ofNat (2 * (held accesses).length)
  /-- No byte outside the slots is changed. -/
  elsewhere : ∀ offset, Untouched (stackTop memory) accesses offset →
    m.memory.readByte offset = memory.readByte offset
  /-- The other registers are those of the fresh machine. -/
  register : ∀ r, r ≠ .sp → m.register r = (fresh memory policy).register r
  /-- So are its record and the size of its memory. -/
  record : SameRecord (fresh memory policy) m

/-- The slots of a stack in a fresh machine are numbered from the end of its
memory.  In an odd memory the first byte belongs to none of them. -/
theorem freeSlot_eq_slot {memory : Memory} {depth : Nat}
    (hmin : 2 ≤ memory.size) (h : 2 * depth ≤ memory.size) :
    freeSlot memory.size depth = slot (stackTop memory) depth := by
  rw [slot, stackTop_eq_freeSlot hmin, ← freeSlot_add (by omega), Nat.zero_add]

namespace StackOf

variable {memory : Memory} {policy : OpcodePolicy}
  {accesses : List StackAccess} {m : Machine}

theorem fresh (memory : Memory) (policy : OpcodePolicy) :
    StackOf memory policy [] (fresh memory policy) where
  sp := (sp_fresh memory policy).trans (slot_zero _).symm
  holds := trivial
  frameBytes := rfl
  elsewhere _ _ := rfl
  register _ _ := rfl
  record := .refl _

/-- As long as they fit, the words held are the words on the stack of the
machine.  What is known of pushes and pops on a stack can then be used. -/
theorem stackIs (h : StackOf memory policy accesses m) (hmin : 2 ≤ memory.size)
    (hmax : memory.size ≤ 65536)
    (hfits : (held accesses).length ≤ memory.size / 2) :
    m.StackIs (held accesses) := by
  have hsize : m.memory.size = memory.size := h.record.size
  refine ⟨hsize ▸ hmax, by omega, ?_, h.holds⟩
  rw [h.sp, hsize, freeSlot_eq_slot hmin (by omega)]

/-- A push within the capacity succeeds and leaves the bytes outside its
slot. The free slot is then the next one, which has wrapped around when
the stack is full. -/
theorem push {value : UInt16} (h : StackOf memory policy accesses m)
    (hmin : 2 ≤ memory.size) (hmax : memory.size ≤ 65536)
    (hroom : (held (accesses ++ [.push value])).length ≤ memory.size / 2) :
    perform (.push value) m = .ok none (m.pushed value) ∧
      StackOf memory policy (accesses ++ [.push value]) (m.pushed value) := by
  have hheld :
      held (accesses ++ [.push value]) = value :: held accesses := held_concat ..
  rw [hheld, List.length_cons] at hroom
  have hsize : m.memory.size = memory.size := h.record.size
  obtain ⟨hslot, hpushed⟩ :=
    (h.stackIs hmin hmax (Nat.le_of_succ_le hroom)).push value (by omega)
  refine ⟨(Action.bind_of_ok (push_eq_pushed value hslot) _).trans rfl, ?_, ?_,
    ?_, ?_, ?_, ?_⟩
  · rw [sp_pushed, h.sp, hheld, List.length_cons, slot, slot, Nat.mul_add,
      UInt16.ofNat_add]
    grind
  · rw [hheld]
    exact hpushed.holds
  · show m.frameBytes + 2 = _
    rw [h.frameBytes, hheld, List.length_cons, Nat.mul_add, UInt16.ofNat_add]
    rfl
  · intro offset hout
    obtain ⟨hhigh, hlow⟩ := hout accesses value List.prefix_rfl
    rw [← h.sp] at hhigh hlow
    refine (Memory.readByte_putWord_of_ne value hhigh hlow).trans
      (h.elsewhere offset ?_)
    exact fun earlier value' hearlier =>
      hout earlier value' (hearlier.trans (List.prefix_append ..))
  · intro r hr
    exact (register_pushed m value hr).trans (h.register r hr)
  · exact h.record.trans (.pushed m value)

/-- A pop takes the word pushed last off the stack.  Its bytes stay where they
are, in a slot that is free again. -/
theorem pop {word : UInt16} {words : List UInt16}
    (h : StackOf memory policy accesses m) (hmin : 2 ≤ memory.size)
    (hmax : memory.size ≤ 65536)
    (hfits : (held accesses).length ≤ memory.size / 2)
    (hheld : held accesses = word :: words) :
    perform .pop m = .ok (some word) m.popped ∧
      StackOf memory policy (accesses ++ [.pop]) m.popped := by
  have hafter : held (accesses ++ [.pop]) = words := by
    rw [held_concat, hheld, change, List.tail_cons]
  have hstack := h.stackIs hmin hmax hfits
  rw [hheld] at hstack
  obtain ⟨hpop, hpopped⟩ := StackIs.pop hstack
  refine ⟨(Action.bind_of_ok hpop _).trans rfl, ?_, ?_, ?_, ?_, ?_, ?_⟩
  · rw [sp_popped, h.sp, hheld, hafter, List.length_cons, slot, slot, Nat.mul_add,
      UInt16.ofNat_add]
    grind
  · rw [hafter]
    exact hpopped.holds
  · show m.frameBytes - 2 = _
    rw [h.frameBytes, hheld, hafter, List.length_cons, Nat.mul_add,
      UInt16.ofNat_add]
    exact UInt16.add_sub_cancel _ 2
  · intro offset hout
    refine h.elsewhere offset ?_
    exact fun earlier value hearlier =>
      hout earlier value (hearlier.trans (List.prefix_append ..))
  · intro r hr
    exact (register_popped m hr).trans (h.register r hr)
  · exact h.record.trans (.of_undoable (undoable_of m _ _))

end StackOf

/-- Accesses within the capacity succeed, and give back what they
should.  The induction takes the last access off, as the capacity is
kept by those before it. -/
theorem performAll_of_withinCapacity {memory : Memory} (policy : OpcodePolicy)
    (hmin : 2 ≤ memory.size) (hmax : memory.size ≤ 65536)
    {accesses : List StackAccess}
    (h : WithinCapacity (memory.size / 2) accesses) :
    ∃ m, performAll accesses (fresh memory policy) = .ok (replies accesses) m ∧
      StackOf memory policy accesses m := by
  induction accesses using List.reverseRecOn with
  | nil => exact ⟨_, rfl, .fresh memory policy⟩
  | append_singleton accesses access ih =>
    obtain ⟨m, hrun, hstack⟩ := ih h.of_concat
    obtain ⟨m', hlast, hstack'⟩ :
        ∃ m', perform access m = .ok (reply accesses access) m' ∧
        StackOf memory policy (accesses ++ [access]) m' := by
      cases access with
      | push value => exact ⟨_, hstack.push hmin hmax h.length_le⟩
      | pop =>
        obtain ⟨word, words, hheld⟩ := h.exists_held
        obtain ⟨hpop, hpopped⟩ := hstack.pop hmin hmax h.of_concat.length_le hheld
        refine ⟨_, ?_, hpopped⟩
        rw [reply, hheld]
        exact hpop
    refine ⟨m', ?_, hstack'⟩
    rw [performAll, List.mapM_append, ← performAll, Action.bind_of_ok hrun,
      replies_concat]
    have hone : List.mapM perform [access] m = .ok [reply accesses access] m' := by
      rw [List.mapM_cons, Action.bind_of_ok hlast]
      rfl
    exact (Action.bind_of_ok hone _).trans rfl

/-! ### One push too many -/

variable {memory : Memory} {policy : OpcodePolicy}
  {accesses : List StackAccess} {m : Machine}

/-- The pointer of a full stack has wrapped around.  Only in the largest memory
is there a word at this address, which is the one at the bottom. -/
theorem StackOf.toNat_sp (h : StackOf memory policy accesses m)
    (hmin : 2 ≤ memory.size) (hmax : memory.size ≤ 65536)
    (hfull : (held accesses).length = memory.size / 2) :
    m.sp.toNat = 65534 + memory.size % 2 := by
  have hsize : m.memory.size = memory.size := h.record.size
  have hrest : memory.size - 2 * (memory.size / 2) = memory.size % 2 := by omega
  rw [(h.stackIs hmin hmax (Nat.le_of_eq hfull)).sp_eq, hsize, hfull, freeSlot,
    hrest]
  rcases Nat.mod_two_eq_zero_or_one memory.size with hparity | hparity
    <;> rw [hparity] <;> rfl

/-- The first of the words that a machine holds is at the end of its memory.  It
is this word that a push on a full stack replaces in the largest memory. -/
theorem StackOf.exists_bottom (h : StackOf memory policy accesses m)
    (hheld : held accesses ≠ []) :
    ∃ bottom, (held accesses).getLast? = some bottom ∧
      m.memory.readWord (memory.size - 2) = .ok bottom := by
  have hlast := List.getLast?_eq_some_getLast hheld
  obtain ⟨others, hothers⟩ := List.getLast?_eq_some_iff.1 hlast
  have hbottom := h.holds
  rw [hothers] at hbottom
  have hsize : m.memory.size = memory.size := h.record.size
  refine ⟨_, hlast, ?_⟩
  rw [← hsize]
  exact hbottom.append_right.1

/-- On a fresh machine, pushes and pops that never pop more than was pushed, nor
leave more words than half the size of the memory, all succeed and give back
what a stack should; the pointer and the count follow the number of words held,
and no byte outside the slots is changed.  When there are as many words as that,
one more is refused and changes nothing; only in a memory of 65536 bytes it is
taken, and replaces the word at the bottom. -/
theorem stack_has_exact_capacity (memory : Memory) (policy : OpcodePolicy)
    (hmin : 2 ≤ memory.size) (hmax : memory.size ≤ 65536)
    (accesses : List StackAccess)
    (h : WithinCapacity (memory.size / 2) accesses) :
    ∃ m, performAll accesses (fresh memory policy) = .ok (replies accesses) m ∧
      StackOf memory policy accesses m ∧
      ((held accesses).length = memory.size / 2 → ∀ value,
        (memory.size < 65536 →
          push value m = .error (.memory ⟨m.sp.toNat, 2, memory.size⟩) m) ∧
        (memory.size = 65536 → ∃ m' bottom, push value m = .ok () m' ∧
          (held accesses).getLast? = some bottom ∧
          m.memory.readWord 65534 = .ok bottom ∧
          m'.memory.readWord 65534 = .ok value ∧
          ∀ offset, offset ≠ 65534 → offset ≠ 65535 →
            m'.memory.readByte offset = m.memory.readByte offset)) := by
  obtain ⟨m, hrun, hstack⟩ := performAll_of_withinCapacity policy hmin hmax h
  have hsize : m.memory.size = memory.size := hstack.record.size
  refine ⟨m, hrun, hstack, fun hfull value => ⟨fun hsmall => ?_, fun hlarge => ?_⟩⟩
  · have hsp := hstack.toNat_sp hmin hmax hfull
    rw [← hsize]
    exact push_of_lt value (by omega)
  · have hsp : m.sp.toNat = 65534 := by
      rw [hstack.toNat_sp hmin hmax hfull, hlarge]
    have hfits : m.sp.toNat + 2 ≤ m.memory.size := by omega
    have hheld : held accesses ≠ [] := by
      rw [← List.length_pos_iff]
      omega
    obtain ⟨bottom, hlast, hread⟩ := hstack.exists_bottom hheld
    refine ⟨m.pushed value, bottom, push_eq_pushed value hfits, hlast, ?_, ?_, ?_⟩
    · rw [hlarge] at hread
      exact hread
    · rw [← hsp]
      exact Memory.readWord_putWord_self m.memory value hfits
    · intro offset hhigh hlow
      rw [← hsp] at hhigh
      exact Memory.readByte_putWord_of_ne value hhigh (by omega)

/-- A stack in five bytes takes two words, whatever was popped in between, and
no third.  The byte that is left over is not used. -/
theorem third_word_refused : ∃ m,
    performAll [.push 7, .push 8, .pop, .push 9] (fresh (Memory.zeroed 5) .strict) =
        .ok [none, none, some 8, none] m ∧
      push 1 m = .error (.memory ⟨65535, 2, 5⟩) m := by
  obtain ⟨m, hrun, hstack, hfull⟩ :=
    stack_has_exact_capacity (Memory.zeroed 5) .strict (by decide)
    (by decide) [.push 7, .push 8, .pop, .push 9] (by decide)
  have hsp : m.sp.toNat = 65535 := hstack.toNat_sp (by decide) (by decide) rfl
  have hrefused := (hfull rfl 1).1 (by decide)
  rw [hsp] at hrefused
  exact ⟨m, hrun, hrefused⟩

end Machine

end StackMachine
