import StackMachine.Proofs.StackContents
import StackMachine.Proofs.Pops

/-!
# What a return takes off the stack

A return finds a frame at the frame pointer and, above it, the arguments of the
call with their count.  It takes all of this off the stack, one pop after
another, and puts the words of the frame back where the call took them from.

## Main definitions

* `Machine.Resumed` — what a return leaves to the caller

## Main statements

* `Machine.StackIs.wordsFrom` — the words on a stack stand in a row
* `Machine.ret_of_stack` — a return from a frame that lies on the stack

## Design notes

**The frame count after a return** starts from the frame size, which counts the
frame and all that the caller had pushed, and loses two for every pop behind it.
The pop of the frame size itself came before it was set, so one of the pops that
took down the frame and the arguments is not counted, and two bytes more are
left than the caller has on its stack.
-/

namespace StackMachine.Machine

/-- The words on a stack can be read one after another, from the one above the
pointer on.  A return reads its frame in this order. -/
theorem StackIs.wordsFrom {m : Machine} {words : List UInt16}
    (h : m.StackIs words) :
    m.memory.WordsFrom (m.sp + 2) words := by
  induction words generalizing m with
  | nil => trivial
  | cons word words ih =>
    obtain ⟨hpop, hrest⟩ := h.pop
    have hwords := ih hrest
    rw [sp_popped] at hwords
    exact ⟨(pop_eq_ok hpop).1, hwords⟩

/-- What a return leaves to the caller of a subroutine with so many arguments:
the machine goes on with the general registers and at the address of the machine
that made the call. -/
structure Resumed (caller m m' : Machine) (count : UInt16) : Prop where
  /-- Nothing is written. -/
  memory : m'.memory = m.memory
  /-- The general registers are those of the caller. -/
  general : ∀ r ∈ Register.general, m'.register r = caller.register r
  /-- The machine goes on behind the call. -/
  ip : m'.ip = caller.ip
  /-- The frame pointer is moved up by the frame size. -/
  fp : m'.fp = m.fp + (caller.frameBytes + 20)
  /-- The arguments are no longer counted, but the word that counts them still
  is. -/
  frameBytes : m'.frameBytes = caller.frameBytes - UInt16.ofNat (2 * count.toNat)

/-- A return from a frame on the stack takes off the frame, the count and the
arguments.  Whatever the callee has pushed below the frame does not matter, as
the pointer is first moved up to it. -/
theorem ret_of_stack {caller m : Machine} {count : UInt16}
    {arguments others : List UInt16} (hcount : arguments.length = count.toNat)
    (h : (m.setRegister .sp m.fp).StackIs
      (caller.frame.reverse ++ count :: (arguments ++ others))) :
    ∃ m', ret m = .ok () m' ∧ m'.StackIs others ∧ Resumed caller m m' count := by
  have hsp : (m.setRegister .sp m.fp).sp = m.fp := register_setRegister_self ..
  have hrow := h.wordsFrom
  rw [hsp, reverse_frame] at hrow
  obtain ⟨hframe, hread, habove⟩ := Memory.wordsFrom_append.1 hrow
  -- The frame is ten words long, and the count stands above it.
  have htop : m.fp + 2 + 20 = m.fp + 22 := UInt16.add_assoc ..
  have hread : m.memory.readWord (m.fp + 22).toNat = .ok count := htop ▸ hread
  have habove :
      m.memory.WordsFrom (m.fp + 22 + 2) (arguments ++ others) := htop ▸ habove
  have hreaches := (Memory.wordsFrom_append.1 habove).1.reaches
  rw [hcount] at hreaches
  obtain ⟨m', hret, hdown⟩ := ret_of_frame hframe hread hreaches
  refine ⟨m', hret, ?_, hdown.memory, hdown.general, hdown.ip, hdown.fp, ?_⟩
  · have hall : (caller.frame.reverse ++ count :: (arguments ++ others)).length =
        others.length + (11 + count.toNat) := by
      rw [List.length_append, List.length_reverse, length_frame, frameWords,
        List.length_cons, List.length_append, hcount]
      omega
    have hfits := h.fits
    have hfp := h.sp_eq
    rw [hall] at hfits hfp
    rw [hsp, freeSlot_add hfits] at hfp
    rw [← List.cons_append, ← List.append_assoc] at h
    refine h.take_off hdown.memory ?_
    rw [hdown.sp, hfp, Nat.mul_add, UInt16.ofNat_add, UInt16.add_assoc]
    exact UInt16.sub_add_cancel ..
  · rw [hdown.frameBytes, UInt16.add_sub_cancel]

end StackMachine.Machine
