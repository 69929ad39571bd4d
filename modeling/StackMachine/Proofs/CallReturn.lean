import StackMachine.Proofs.Pops

/-!
# A return undoes a call

A return asks for little: the frame pointer of the call, the frame, and the
count of the arguments. What a subroutine has done to all other registers, to
the frame count and to the rest of memory is of no account.

## Main definitions

* `Machine.KeepsFrame` — a machine in which a call can still be undone
* `Machine.HandedBack` — what a return leaves to the machine that made the call

## Main statements

* `Machine.ret_undoes_call` — when a return succeeds, and what it leaves

## Design notes

**The frame is found from both ends.**  The call writes it downwards from the
stack pointer of the caller, so what the subroutine has to keep is said about
the slots of that pointer.  The return reads it upwards from the frame pointer.
`Machine.slot_of_frame` says that the addresses are the same, also where they
wrap around.
-/

namespace StackMachine

namespace Memory

variable {m m' : Memory} {address : UInt16} {words : List UInt16}

/-- A row of words is a matter of what is read at its addresses.  Memories that
agree there hold the same row. -/
theorem WordsFrom.congr (h : m.WordsFrom address words)
    (hread : ∀ k < words.length, m'.readWord (address + UInt16.ofNat
      (2 * k)).toNat = m.readWord (address + UInt16.ofNat (2 * k)).toNat) :
    m'.WordsFrom address words := by
  induction words generalizing address with
  | nil => trivial
  | cons word words ih =>
    obtain ⟨hword, hrest⟩ := h
    have hfirst := hread 0 (Nat.succ_pos _)
    have hzero : address + UInt16.ofNat (2 * 0) = address := UInt16.add_zero address
    rw [hzero, hword] at hfirst
    refine ⟨hfirst, ih hrest ?_⟩
    intro k hk
    rw [next_of_row]
    exact hread (k + 1) (Nat.succ_lt_succ hk)

end Memory

namespace Machine

variable {caller callee m m' : Machine} {target count : UInt16}

/-- A machine in which the call that led to `callee` can still be undone. -/
structure KeepsFrame (caller callee m : Machine) : Prop where
  /-- The memory has the same length. -/
  size : m.memory.size = callee.memory.size
  /-- The frame pointer has not moved. -/
  fp : m.fp = callee.fp
  /-- No word of the frame has been overwritten. -/
  frame : ∀ i < frameWords, m.memory.readWord (slot caller.sp i).toNat =
    callee.memory.readWord (slot caller.sp i).toNat
  /-- Nor has the count of the arguments. -/
  count : m.memory.readWord (caller.sp + 2).toNat =
    callee.memory.readWord (caller.sp + 2).toNat

/-- What a return leaves to the machine that made the call, when so many
arguments were counted. -/
structure HandedBack (caller m m' : Machine) (count : UInt16) : Prop where
  /-- The general registers are those of the caller. -/
  general : ∀ r ∈ Register.general, m'.register r = caller.register r
  /-- The machine goes on behind the call. -/
  ip : m'.ip = caller.ip
  /-- The count and the arguments are off the stack of the caller. -/
  sp : m'.sp = caller.sp + 2 + UInt16.ofNat (2 * count.toNat)
  /-- The frame pointer is as far up as the frame count of the caller says. -/
  fp : m'.fp = caller.sp + caller.frameBytes
  /-- The arguments are no longer counted. -/
  frameBytes : m'.frameBytes = caller.frameBytes - UInt16.ofNat (2 * count.toNat)
  /-- The accumulator is that of the subroutine. -/
  acc : m'.acc = m.acc
  /-- So is the memory. -/
  memory : m'.memory = m.memory
  /-- So is the record of the run. -/
  record : SameRecord m m'

/-- The words above the frame pointer are those in the slots below the stack
pointer of the caller, in the other order. -/
theorem slot_of_frame (sp : UInt16) {k : Nat} (hk : k < frameWords) :
    sp - 20 + 2 + UInt16.ofNat (2 * k) = slot sp (frameWords - 1 - k) := by
  have htwice :
      UInt16.ofNat (2 * (frameWords - 1 - k)) + UInt16.ofNat (2 * k) = 18 := by
    rw [← UInt16.ofNat_add, ← Nat.mul_add,
      Nat.sub_add_cancel (Nat.le_sub_one_of_lt hk)]
    rfl
  rw [slot, ← UInt16.sub_add_cancel (sp - UInt16.ofNat _) (UInt16.ofNat (2 * k))]
  grind

/-- The frame of a call still stands above the frame pointer, whatever the
callee has done elsewhere.  So a return finds what it looks for. -/
theorem KeepsFrame.wordsFrom (h : KeepsFrame caller callee m)
    (hcalled : Called caller target callee) :
    m.memory.WordsFrom (m.fp + 2)
      ((caller.frameBytes + 20) :: caller.ip ::
        Register.general.reverse.map caller.register) := by
  rw [h.fp, hcalled.fp]
  refine hcalled.frame.congr ?_
  intro k hk
  have hframe : k < frameWords := hk
  rw [slot_of_frame caller.sp hframe]
  exact h.frame _ (by rw [frameWords] at *; omega)

/-- Whatever a subroutine has done, if it kept the frame pointer, the frame and
the count, a return succeeds exactly if the count and the arguments lie in
memory, and undoes the call. -/
theorem ret_undoes_call (hcall : call target caller = .ok () callee)
    (hkeeps : KeepsFrame caller callee m) :
    ((∃ m', ret m = .ok () m') ↔
        ∃ count, callee.memory.readWord (caller.sp + 2).toNat = .ok count ∧
          m.memory.Reaches caller.sp (count.toNat + 1)) ∧
      ∀ m', ret m = .ok () m' →
        ∃ count, callee.memory.readWord (caller.sp + 2).toNat = .ok count ∧
          HandedBack caller m m' count := by
  obtain ⟨hroom, rfl⟩ := call_eq_ok hcall
  have hcalled := called_of_room target hroom
  have hframe := hkeeps.wordsFrom hcalled
  have hfp : m.fp = caller.sp - 20 := hkeeps.fp.trans hcalled.fp
  have htop : m.fp + 22 = caller.sp + 2 := by
    rw [hfp]
    grind
  have hreaches : ∀ count : UInt16, m.memory.Reaches caller.sp (count.toNat + 1) ↔
      (m.fp + 22).toNat + 2 ≤ m.memory.size ∧
        m.memory.Reaches (m.fp + 22) count.toNat := by
    intro count
    rw [htop]
    exact Memory.reaches_succ
  rw [← hkeeps.count, ← htop]
  refine ⟨⟨?_, ?_⟩, ?_⟩
  · rintro ⟨m', hret⟩
    obtain ⟨count, hread, habove⟩ := reaches_of_ret hframe hret
    exact ⟨count, hread, (hreaches count).2 ⟨Memory.fits_of_readWord hread, habove⟩⟩
  · rintro ⟨count, hread, hall⟩
    obtain ⟨m', hret, -⟩ := ret_of_frame hframe hread ((hreaches count).1 hall).2
    exact ⟨m', hret⟩
  · intro m' hret
    obtain ⟨count, hread, habove⟩ := reaches_of_ret hframe hret
    obtain ⟨m₁, hsame, hdown⟩ := ret_of_frame hframe hread habove
    cases hret.symm.trans hsame
    refine ⟨count, hread, hdown.general, hdown.ip, ?_, ?_, ?_, hdown.acc,
      hdown.memory, .of_undoable (confined_ret.of_ok hret)⟩
    · rw [hdown.sp, htop]
    · rw [hdown.fp, hfp]
      grind
    · rw [hdown.frameBytes, UInt16.add_sub_cancel]

/-! ### A subroutine that overwrites what it may -/

/-- A machine at an odd stack pointer, above which a count of one argument
stands. -/
def oddCaller : Machine :=
  { fresh ((Memory.zeroed 64).overwrite 43 [0, 1, 0x12, 0x34]) .strict with
    frameBytes := 0xfffe }
    |>.setRegister .r1 0xabcd |>.setRegister .r8 7 |>.setRegister .ip 9
    |>.setRegister .sp 41

/-- The machine in the subroutine. -/
def oddCallee : Machine := (oddCaller.pushedAll oddCaller.frame).entered 0x30

/-- The machine when the subroutine has moved the stack pointer and
the frame count, and overwritten registers, the argument and the
memory below the frame. -/
def disturbed : Machine :=
  { oddCallee with
    memory := (oddCallee.memory.overwrite 0 [1, 2, 3, 4]).overwrite 45 [0xff, 0xff]
    frameBytes := 300 }
    |>.setRegister .r1 1 |>.setRegister .r8 0xffff |>.setRegister .acc 5
    |>.setRegister .sp 2

/-- The caller has an odd stack pointer, and the frame of its call stands
at odd addresses. -/
theorem call_oddCaller : call 0x30 oddCaller = .ok () oddCallee :=
  call_of_room 0x30 (by decide +kernel)

/-- The callee has changed registers, stack pointer and memory, but not the
frame. -/
theorem keepsFrame_disturbed : KeepsFrame oddCaller oddCallee disturbed := by
  constructor <;> decide +kernel

/-- The return finds its way back, and takes the one argument off the stack. -/
theorem ret_disturbed :
    (∃ m', ret disturbed = .ok () m') ∧
      ∀ m', ret disturbed = .ok () m' → HandedBack oddCaller disturbed m' 1 := by
  obtain ⟨hsucceeds, hback⟩ := ret_undoes_call call_oddCaller keepsFrame_disturbed
  have hcount : oddCallee.memory.readWord (oddCaller.sp + 2).toNat =
      .ok 1 := by decide +kernel
  constructor
  · refine hsucceeds.2 ⟨1, hcount, ?_⟩
    unfold Memory.Reaches
    decide +kernel
  · intro m' hret
    obtain ⟨count, hread, hall⟩ := hback m' hret
    cases hcount.symm.trans hread
    exact hall

end Machine

end StackMachine
