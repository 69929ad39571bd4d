import StackMachine.Proofs.Discipline
import StackMachine.Proofs.Returns

/-!
# A machine that runs an activation

The book of the activations (`Ledger`) and the stack of a machine, related by an
invariant: which words are where, where the frame pointer is and what the frame
count says.  Every operation that the book allows succeeds and keeps it.

## Main definitions

* `Activation.drift` — how far the frame pointer of an activation is off
* `Machine.Runs` — a machine that runs an activation of a book
* `Machine.Restored` — what a call should leave to its caller, but for the frame
  pointer

## Main statements

* `Machine.Runs.fresh` — a fresh machine runs its first activation
* `Machine.Runs.plain`, `Machine.Runs.call`, `Machine.Runs.ret` — one operation

## Design notes

**Where the drift comes from.**  A return leaves two bytes too many in the frame
count (`Machine.Resumed`).  They are part of the size of the next frame, and the
return from that one adds them to the frame pointer.  The first call of an
activation starts from an exact count, so it takes a second one to do harm; and
an activation whose frame pointer is off does not return as it should, since it
looks for its frame two bytes above it.

**The words below** the activation that runs are a list of their own.  No
operation of the activation changes it, which is what makes the frame of a call
be there for its return.
-/

namespace StackMachine

open StackOp

/-- How many bytes the frame pointer of an activation is off: two for every call
that has returned to it but the first. -/
def Activation.drift (a : Activation) : Nat := 2 * (a.calls - 1)

namespace Machine

/-- A machine that runs an activation by a book, with certain words below
those of its own. -/
structure Runs (size : Nat) (l : Ledger) (below : List UInt16)
    (m : Machine) : Prop where
  /-- The memory keeps its size. -/
  size_eq : m.memory.size = size
  /-- The words of the activation are on top of the stack. -/
  stack : m.StackIs (l.current.words ++ below)
  /-- The book counts the words below. -/
  length_below : below.length = Ledger.callerWords l.waiting
  /-- The frame pointer is behind the words below, up to the drift. -/
  fp_eq : m.fp = freeSlot size below.length + UInt16.ofNat l.current.drift
  /-- The frame count is that of the words of the activation, and two
  for every return. -/
  frameBytes_eq : m.frameBytes =
    UInt16.ofNat (2 * (l.current.words.length + l.current.calls))

namespace Runs

variable {size : Nat} {l l' : Ledger} {below : List UInt16} {m : Machine}

/-- A fresh machine runs its first activation on an empty stack.  This is where
the invariant begins to hold. -/
theorem fresh {memory : Memory} (policy : OpcodePolicy) (hmin : 2 ≤ memory.size)
    (hmax : memory.size ≤ 65536) :
    Runs memory.size .start [] (fresh memory policy) where
  size_eq := rfl
  stack := by
    refine ⟨hmax, Nat.zero_le _, ?_, trivial⟩
    exact (sp_fresh memory policy).trans (stackTop_eq_freeSlot hmin)
  length_below := rfl
  fp_eq := by
    rw [fp_fresh, stackTop_eq_freeSlot hmin]
    exact (UInt16.add_zero _).symm
  frameBytes_eq := rfl

/-- An operation that neither calls nor returns succeeds and stays within its
activation.  What lies below the activation is not touched. -/
theorem plain {op : StackOp} (h : Runs size l below m) (hop : op.IsPlain)
    (hnext : l.next? size op = some l') :
    ∃ m', perform op m = .ok () m' ∧ Runs size l' below m' := by
  obtain ⟨hrecord, hroom⟩ := Ledger.next?_eq_some.1 hnext
  obtain ⟨⟨words, calls⟩, waiting⟩ := l
  obtain ⟨rfl, hstack, hbelow, hfp, hcount⟩ := h
  cases op with
  | push value =>
    cases hrecord
    have hfits : 2 * ((words ++ below).length + 1) ≤ m.memory.size := by
      rw [List.length_append, hbelow, Nat.add_right_comm]
      exact hroom
    obtain ⟨hslot, hpushed⟩ := hstack.push value hfits
    refine ⟨m.pushed value, push_eq_pushed value hslot,
      size_memory_pushed m value, hpushed, hbelow,
      ?_, ?_⟩
    · exact (register_pushed m value (by decide)).trans hfp
    · show m.frameBytes + 2 = UInt16.ofNat (2 * (words.length + 1 + calls))
      rw [hcount, Nat.add_right_comm, Nat.mul_add 2 _ 1, UInt16.ofNat_add]
      rfl
  | pop =>
    cases words with
    | nil => cases hrecord
    | cons word words =>
      cases hrecord
      obtain ⟨hpop, hpopped⟩ := StackIs.pop hstack
      refine ⟨m.popped, ?_, rfl, hpopped, hbelow, ?_, ?_⟩
      · exact (Action.bind_of_ok hpop _).trans rfl
      · exact (register_popped m (by decide)).trans hfp
      · show m.frameBytes - 2 = UInt16.ofNat (2 * (words.length + calls))
        rw [hcount, List.length_cons, Nat.add_right_comm, Nat.mul_add 2 _ 1,
          UInt16.ofNat_add]
        exact UInt16.add_sub_cancel _ 2
  | set r value =>
    simp only [Ledger.record?] at hrecord
    split at hrecord <;> cases hrecord
    next hr =>
    obtain ⟨hsp, hr⟩ := not_or.1 hr
    refine ⟨m.setRegister r value, rfl, rfl, hstack.setRegister hsp,
      hbelow, ?_, hcount⟩
    exact (register_setRegister_of_ne m value hr).trans hfp
  | store address value =>
    simp only [Ledger.record?] at hrecord
    split at hrecord <;> cases hrecord
    next hfree =>
    have hunder :
        address.toNat + 2 + 2 * (words ++ below).length ≤ m.memory.size := by
      rw [List.length_append, hbelow]
      exact hfree
    obtain ⟨hstore, hstored⟩ := hstack.store hunder value
    exact ⟨_, hstore, Memory.size_putWord .., hstored, hbelow, hfp, hcount⟩
  | call target => exact absurd hop id
  | ret => exact absurd hop id

/-- A call succeeds, and its frame is on top of what the callee has
below it. From inside, the words of the caller are as far out of reach
as those of all before. -/
theorem call {target : UInt16} (h : Runs size l below m)
    (hnext : l.next? size (.call target) = some l') :
    l.current.MayCall ∧ l' = ⟨.entered, l.current :: l.waiting⟩ ∧
      ∃ m', perform (.call target) m = .ok () m' ∧
        Runs size l' (m.frame.reverse ++ (l.current.words ++ below)) m' := by
  obtain ⟨hrecord, hroom⟩ := Ledger.next?_eq_some.1 hnext
  obtain ⟨hmay, rfl⟩ := Ledger.record?_call hrecord
  obtain ⟨rfl, hstack, hbelow, hfp, hcount⟩ := h
  refine ⟨hmay, rfl, ?_⟩
  have hlength : (m.frame.reverse ++ (l.current.words ++ below)).length =
      frameWords + l.current.words.length + Ledger.callerWords l.waiting := by
    rw [List.length_append, List.length_append, List.length_reverse,
      length_frame, hbelow, Nat.add_assoc]
  have hfits :
      2 * ((l.current.words ++ below).length + m.frame.length) ≤ m.memory.size := by
    have hall :
        2 * (0 + (frameWords + l.current.words.length +
          Ledger.callerWords l.waiting)) ≤
        m.memory.size := hroom
    rw [List.length_append, length_frame, hbelow]
    omega
  obtain ⟨hcheck, hpushed⟩ := hstack.pushAll m.frame hfits
  have hcall := call_of_room target hcheck
  have hsize : (m.pushedAll m.frame).memory.size = m.memory.size :=
    size_memory_pushedAll m m.frame
  generalize m.pushedAll m.frame = m₁ at hpushed hcall hsize
  refine ⟨m₁.entered target, hcall, hsize, ?_, hlength, ?_, rfl⟩
  · exact hpushed.congr rfl (sp_entered m₁ target)
  · rw [fp_entered, hpushed.sp_eq, hsize]
    exact (UInt16.add_zero _).symm

end Runs

/-! ### One call -/

/-- What a call should leave to its caller when it has returned, but for
the frame pointer. -/
structure Restored (before after : Machine) : Prop where
  /-- The general registers are as they were. -/
  general : ∀ r ∈ Register.general, after.register r = before.register r
  /-- The machine goes on where the caller was. -/
  ip : after.ip = before.ip
  /-- The arguments and their count are off the stack. -/
  sp : ∃ count, before.memory.readWord (before.sp + 2).toNat = .ok count ∧
    after.sp = before.sp + 2 * (count + 1)

namespace Runs

variable {size : Nat} {l l' : Ledger} {below : List UInt16} {m m₁ : Machine}

/-- The words that a return takes off, below the frame: a count, and as many
arguments as it says.  They are the topmost words of the caller. -/
theorem arguments (h : Runs size l below m) (hmay : l.current.MayCall) :
    ∃ count arguments, l.current.words =
      count :: (arguments ++ l.current.resumed.words) ∧
      arguments.length = count.toNat ∧
        m.memory.readWord (m.sp + 2).toNat = .ok count := by
  obtain ⟨⟨words, calls⟩, waiting⟩ := l
  cases words with
  | nil => exact absurd hmay id
  | cons count words =>
    refine ⟨count, words.take count.toNat, ?_, ?_, ?_⟩
    · rw [Activation.resumed, List.take_append_drop]
    · exact List.length_take_of_le hmay
    · exact (pop_eq_ok (StackIs.pop h.stack).1).1

/-- A return with a frame pointer that is right gives the machine back to the
caller.  It is right as long as the callee has made at most one call, which is
what the count of the frame allows for. -/
theorem ret (hcaller : Runs size l below m₁) (hmay : l.current.MayCall)
    (h : Runs size l' (m₁.frame.reverse ++ (l.current.words ++ below)) m)
    (hcalls : l'.current.calls ≤ 1) :
    ∃ m', perform .ret m = .ok () m' ∧
      Runs size ⟨l.current.resumed, l.waiting⟩ below m' ∧
      Restored m₁ m' := by
  obtain ⟨count, arguments, hwords, hcount, hread⟩ := hcaller.arguments hmay
  -- Without a drift the frame pointer of the callee is where the frame of the
  -- call was left.
  have hdrift : l'.current.drift = 0 := by
    rw [Activation.drift, Nat.sub_eq_zero_of_le hcalls]
  have hfp := h.fp_eq
  rw [hdrift] at hfp
  have hframe : (m.setRegister .sp m.fp).StackIs
      (m₁.frame.reverse ++ count ::
        (arguments ++ (l.current.resumed.words ++ below))) := by
    have hsp : (m.setRegister .sp m.fp).sp =
        freeSlot m.memory.size (m₁.frame.reverse ++
          (l.current.words ++ below)).length := by
      refine (register_setRegister_self m .sp m.fp).trans ?_
      rw [hfp, h.size_eq]
      exact UInt16.add_zero _
    have hoff := h.stack.take_off (show (m.setRegister .sp m.fp).memory =
      m.memory from rfl) hsp
    rw [hwords, List.cons_append, List.append_assoc] at hoff
    exact hoff
  obtain ⟨m', hret, hstack, hresumed⟩ := ret_of_stack hcount hframe
  have hsize : m'.memory.size = size := by rw [hresumed.memory, h.size_eq]
  have hlength : l.current.words.length =
      count.toNat + 1 + l.current.resumed.words.length := by
    rw [hwords, List.length_cons, List.length_append, hcount, Nat.add_right_comm]
  refine ⟨m', hret, ⟨hsize, hstack, hcaller.length_below, ?_, ?_⟩,
    hresumed.general, hresumed.ip,
    count, hread, ?_⟩
  · -- The frame size leads back to the caller's frame pointer, and on by two
    -- for each return.
    have hfits := h.stack.fits
    have hdepth : (m₁.frame.reverse ++ (l.current.words ++ below)).length =
        below.length + (l.current.words.length + 10) := by
      rw [List.length_append, List.length_append, List.length_reverse,
        length_frame, frameWords]
      omega
    rw [List.length_append, hdepth, h.size_eq] at hfits
    have hzero : UInt16.ofNat 0 = 0 := rfl
    rw [hresumed.fp, hfp, hdepth, hcaller.frameBytes_eq, hzero, UInt16.add_zero]
    exact freeSlot_add_frameSize (by omega)
  · rw [hresumed.frameBytes, hcaller.frameBytes_eq, hlength]
    show _ =
      UInt16.ofNat (2 * (l.current.resumed.words.length + (l.current.calls + 1)))
    rw [show 2 * (count.toNat + 1 + l.current.resumed.words.length +
      l.current.calls) = 2 * (l.current.resumed.words.length +
        (l.current.calls + 1)) + 2 * count.toNat by omega,
      UInt16.ofNat_add]
    exact UInt16.add_sub_cancel _ _
  · have hfits := hcaller.stack.fits
    have hdepth : (l.current.words ++ below).length =
        (l.current.resumed.words ++ below).length + (count.toNat + 1) := by
      rw [List.length_append, List.length_append, hlength]
      omega
    rw [hdepth, hcaller.size_eq] at hfits
    rw [hstack.sp_eq, hcaller.stack.sp_eq, hdepth, hsize, hcaller.size_eq,
      freeSlot_add hfits, UInt16.ofNat_mul, UInt16.ofNat_add,
      UInt16.ofNat_toNat]
    exact (UInt16.sub_add_cancel _ _).symm

end Runs

end Machine

end StackMachine
