import StackMachine.Proofs.Action

/-!
# Pushes in a row

A call makes ten pushes and tests their slots beforehand.  Here the test is tied
to the pushes: where it finds room, any words may be pushed and none of the
pushes fails; where it does not, they fail with the very complaint of the test.

## Main definitions

* `Memory.putWord` — a word written where it fits, and nothing where it does not
* `Machine.pushed`, `Machine.pushedAll` — a machine with words pushed
* `Machine.popped` — a machine with one word popped
* `Machine.pushAll` — a push of each word
* `Machine.frame` — the words that a call pushes, in order
* `Machine.entered` — a machine that has pushed its frame and enters a
  subroutine

## Main statements

* `Machine.checkRoom_succ` — the room for one word more is that for one push and
  the rest
* `Machine.pushAll_of_room`, `Machine.pushAll_of_no_room` — the test predicts
  the pushes
* `Machine.call_of_room`, `Machine.call_of_no_room` — a call as a whole

## Design notes

**A total push.**  `Machine.pushed` is defined whether or not the slot lies
inside memory, so that a row of pushes is a fold over the words with no proofs
inside it.  Where the slot fits it is what `Machine.push` does, and only there
is it used.
-/

namespace StackMachine

namespace Memory

/-- One word written, if it fits. -/
def putWord (m : Memory) (offset : Nat) (value : UInt16) : Memory :=
  if h : offset + 2 ≤ m.size then m.setWord offset value h else m

@[simp] theorem size_putWord (m : Memory) (offset : Nat) (value : UInt16) :
    (m.putWord offset value).size = m.size := by
  unfold putWord
  split
  · exact size_setWord ..
  · rfl

/-- A word that fits is read back where it was put. -/
theorem readWord_putWord_self (m : Memory) {offset : Nat} (value : UInt16)
    (h : offset + 2 ≤ m.size) :
    (m.putWord offset value).readWord offset = .ok value := by
  rw [putWord, dif_pos h, readWord_setWord_self]

/-- Words elsewhere are not changed, and neither are any where the word does not
fit, as then nothing is put. -/
theorem readWord_putWord_of_disjoint (m : Memory) {a b : Nat} (value : UInt16)
    (h : a + 2 ≤ b ∨ b + 2 ≤ a) :
    (m.putWord a value).readWord b = m.readWord b := by
  unfold putWord
  split
  · exact readWord_setWord_of_disjoint m value _ h
  · rfl

end Memory

namespace Machine

/-! ### One push and one pop -/

/-- The machine with one word pushed. -/
def pushed (m : Machine) (value : UInt16) : Machine :=
  { m with
    bank := m.bank.set .sp (m.sp - 2)
    memory := m.memory.putWord m.sp.toNat value
    frameBytes := m.frameBytes + 2 }

/-- A push that fits leaves the machine with the word pushed.  From here on
proofs speak of that machine and not of the action. -/
theorem push_eq_pushed {m : Machine} (value : UInt16)
    (h : m.sp.toNat + 2 ≤ m.memory.size) :
    push value m = .ok () (m.pushed value) := by
  rw [push_of_le value h, pushed, Memory.putWord, dif_pos h]

@[simp] theorem sp_pushed (m : Machine) (value : UInt16) :
    (m.pushed value).sp = m.sp - 2 :=
  Bank.get_set_self ..

theorem register_pushed (m : Machine) (value : UInt16) {r : Register}
    (h : r ≠ .sp) :
    (m.pushed value).register r = m.register r :=
  Bank.get_set_of_ne _ _ h.symm

@[simp] theorem size_memory_pushed (m : Machine) (value : UInt16) :
    (m.pushed value).memory.size = m.memory.size := Memory.size_putWord ..

/-- A push that has succeeded did fit.  With the converse above this is all
there is to say of a push. -/
theorem push_eq_ok {m m' : Machine} {value : UInt16}
    (h : push value m = .ok () m') :
    m.sp.toNat + 2 ≤ m.memory.size ∧ m' = m.pushed value := by
  rcases Nat.lt_or_ge m.memory.size (m.sp.toNat + 2) with hfits | hfits
  · rw [push_of_lt value hfits] at h
    cases h
  · rw [push_eq_pushed value hfits] at h
    cases h
    exact ⟨hfits, rfl⟩

/-- The machine with one word popped. -/
def popped (m : Machine) : Machine :=
  { m with bank := m.bank.set .sp (m.sp + 2), frameBytes := m.frameBytes - 2 }

/-- A pop whose word lies in memory gives that word, and leaves the machine with
its pointer and its count moved. -/
theorem pop_eq_popped {m : Machine} {word : UInt16}
    (h : m.memory.readWord (m.sp + 2).toNat = .ok word) :
    pop m = .ok word m.popped := by
  rw [pop_eq, h]
  rfl

/-- A pop that has succeeded has read the word above the pointer. -/
theorem pop_eq_ok {m m' : Machine} {word : UInt16} (h : pop m = .ok word m') :
    m.memory.readWord (m.sp + 2).toNat = .ok word ∧ m' = m.popped := by
  rw [pop_eq] at h
  split at h
  · next word' hread =>
    cases h
    exact ⟨hread, rfl⟩
  · cases h

@[simp] theorem sp_popped (m : Machine) :
    m.popped.sp = m.sp + 2 := Bank.get_set_self ..

theorem register_popped (m : Machine) {r : Register} (h : r ≠ .sp) :
    m.popped.register r = m.register r :=
  Bank.get_set_of_ne _ _ h.symm

/-- The machine with words pushed, one after another. -/
def pushedAll (m : Machine) (values : List UInt16) : Machine :=
  values.foldl pushed m

theorem pushedAll_cons (m : Machine) (value : UInt16) (values : List UInt16) :
    m.pushedAll (value :: values) = (m.pushed value).pushedAll values := rfl

/-- A row of pushes can be divided anywhere, so a frame can be taken apart into
the words of the caller and those of the call. -/
theorem pushedAll_append (m : Machine) (values others : List UInt16) :
    m.pushedAll (values ++ others) = (m.pushedAll values).pushedAll others :=
  List.foldl_append

/-- A row of pushes moves the stack pointer and no other register. -/
theorem register_pushedAll (m : Machine) (values : List UInt16) {r : Register}
    (h : r ≠ .sp) :
    (m.pushedAll values).register r = m.register r := by
  induction values generalizing m with
  | nil => rfl
  | cons value values ih =>
    exact (ih (m.pushed value)).trans (register_pushed m value h)

@[simp] theorem size_memory_pushedAll (m : Machine) (values : List UInt16) :
    (m.pushedAll values).memory.size = m.memory.size := by
  induction values generalizing m with
  | nil => rfl
  | cons value values ih =>
    exact (ih (m.pushed value)).trans (size_memory_pushed m value)

/-- Every word that is pushed counts two bytes, modulo the width of the count. -/
theorem frameBytes_pushedAll (m : Machine) (values : List UInt16) :
    (m.pushedAll values).frameBytes =
      m.frameBytes + UInt16.ofNat (2 * values.length) := by
  induction values generalizing m with
  | nil => exact (UInt16.add_zero m.frameBytes).symm
  | cons value values ih =>
    have hcount : (m.pushed value).frameBytes = m.frameBytes + 2 := rfl
    rw [pushedAll_cons, ih, hcount, List.length_cons, Nat.mul_add, UInt16.ofNat_add]
    grind

/-! ### Room for a row of pushes -/

/-- Push words, one after another. -/
def pushAll (values : List UInt16) : Action Fault Unit := values.forM push

/-- The test for room looks at the first slot and then at the others, as they
are behind the first push.  This is where its closed form meets the pushes,
which find their slots one after another. -/
theorem checkRoom_succ (m : Machine) (words : Nat) (value : UInt16) :
    m.checkRoom (words + 1) =
      if m.sp.toNat + 2 ≤ m.memory.size then (m.pushed value).checkRoom words
      else .error ⟨m.sp.toNat, 2, m.memory.size⟩ := by
  -- The test knows slots by number and pushes nothing; behind a push the
  -- numbers are one less.
  have hslot : ∀ i, slot m.sp (i + 1) = slot (m.pushed value).sp i := by
    intro i
    rw [slot, slot, sp_pushed, Nat.mul_add, UInt16.ofNat_add]
    grind
  have hzero : slot m.sp 0 = m.sp := UInt16.sub_zero m.sp
  unfold checkRoom
  rw [List.range_succ_eq_map, List.find?_cons, hzero, List.find?_map]
  by_cases h : m.sp.toNat + 2 ≤ m.memory.size
  · rw [decide_eq_false (Nat.not_lt.2 h), if_pos h, size_memory_pushed]
    simp only [Function.comp_def, Nat.succ_eq_add_one, hslot]
    cases List.find? (fun i =>
      decide (m.memory.size < (slot (m.pushed value).sp i).toNat + 2))
      (List.range words) with
    | none => rfl
    | some i => simp only [Option.map_some, hslot]
  · rw [decide_eq_true (Nat.not_le.1 h), if_neg h]
    simp only [hzero]

/-- Where there is room, the first word fits and there is room for the
rest behind it.  An induction along a row of pushes carries its
hypothesis on by this. -/
theorem room_of_succ {m : Machine} {words : Nat}
    (h : m.checkRoom (words + 1) = .ok ()) (value : UInt16) :
    m.sp.toNat + 2 ≤ m.memory.size ∧ (m.pushed value).checkRoom words = .ok () := by
  rw [checkRoom_succ m words value] at h
  split at h
  · next hfits => exact ⟨hfits, h⟩
  · cases h

/-- Where there is room for more, some of the words may be pushed first.  A call
tests for all of its frame at once and then pushes it in parts. -/
theorem room_of_add {m : Machine} {values : List UInt16} {words : Nat}
    (h : m.checkRoom (values.length + words) = .ok ()) :
    m.checkRoom values.length = .ok () ∧
      (m.pushedAll values).checkRoom words = .ok () := by
  induction values generalizing m with
  | nil => exact ⟨rfl, by rwa [List.length_nil, Nat.zero_add] at h⟩
  | cons value values ih =>
    rw [List.length_cons, Nat.add_right_comm] at h
    obtain ⟨hfits, hroom⟩ := room_of_succ h value
    obtain ⟨hfirst, hrest⟩ := ih hroom
    refine ⟨?_, hrest⟩
    rw [List.length_cons, checkRoom_succ m _ value, if_pos hfits]
    exact hfirst

theorem pushAll_cons (value : UInt16) (values : List UInt16) :
    pushAll (value :: values) = push value >>= fun _ => pushAll values := rfl

/-- Where there is room, no push fails.  The test is made once, before anything
is written, and this is what it promises. -/
theorem pushAll_of_room {m : Machine} {values : List UInt16}
    (h : m.checkRoom values.length = .ok ()) :
    pushAll values m = .ok () (m.pushedAll values) := by
  induction values generalizing m with
  | nil => rfl
  | cons value values ih =>
    obtain ⟨hfits, hrest⟩ := room_of_succ h value
    rw [pushAll_cons, Action.bind_of_ok (push_eq_pushed value hfits)]
    exact ih hrest

/-- Where there is no room, the first push to fail makes the complaint of the
test.  So nothing is lost by testing first. -/
theorem pushAll_of_no_room {m : Machine} {values : List UInt16} {e : OutOfBounds}
    (h : m.checkRoom values.length = .error e) :
    ∃ m', pushAll values m = .error (.memory e) m' := by
  induction values generalizing m with
  | nil => cases h
  | cons value values ih =>
    rw [List.length_cons, checkRoom_succ m _ value] at h
    split at h
    · next hfits =>
      obtain ⟨m', hrun⟩ := ih h
      exact ⟨m', by rw [pushAll_cons,
        Action.bind_of_ok (push_eq_pushed value hfits), hrun]⟩
    · next hfits =>
      cases h
      exact ⟨m, by rw [pushAll_cons,
        Action.bind_of_error (push_of_lt value (Nat.not_le.1 hfits))]⟩

/-! ### Calls -/

/-- The words that a call pushes, in order: the general registers, the return
address and the frame size, which counts the frame itself. -/
def frame (m : Machine) : List UInt16 :=
  Register.general.map m.register ++ [m.ip, m.frameBytes + 20]

@[simp] theorem length_frame (m : Machine) : m.frame.length = frameWords := rfl

/-- The machine at the start of a subroutine, with a new frame on its stack. -/
def entered (m : Machine) (target : UInt16) : Machine :=
  { m.setRegister .fp m.sp with frameBytes := 0 }.setRegister .ip target

@[simp] theorem memory_entered (m : Machine) (target : UInt16) :
    (m.entered target).memory = m.memory := rfl

@[simp] theorem ip_entered (m : Machine) (target : UInt16) :
    (m.entered target).ip = target :=
  register_setRegister_self ..

theorem register_entered (m : Machine) (target : UInt16) {r : Register}
    (hip : r ≠ .ip) (hfp : r ≠ .fp) :
    (m.entered target).register r = m.register r := by
  refine (register_setRegister_of_ne _ target hip.symm).trans ?_
  exact register_setRegister_of_ne m m.sp hfp.symm

@[simp] theorem sp_entered (m : Machine) (target : UInt16) :
    (m.entered target).sp = m.sp :=
  register_entered m target (by decide) (by decide)

@[simp] theorem fp_entered (m : Machine) (target : UInt16) :
    (m.entered target).fp = m.sp := by
  refine (register_setRegister_of_ne _ target (by decide)).trans ?_
  exact register_setRegister_self ..

/-- Registers saved one after another are those of the machine before
the first push.  The stack pointer is not among them, and it is all
that a push changes. -/
theorem forM_push_register (rs : List Register) (hrs : .sp ∉ rs) {m : Machine}
    (h : m.checkRoom rs.length = .ok ()) :
    (rs.forM fun r => do push (← readRegister r)) m =
      .ok () (m.pushedAll (rs.map m.register)) := by
  induction rs generalizing m with
  | nil => rfl
  | cons r rs ih =>
    obtain ⟨hr, hrest⟩ : .sp ≠ r ∧ .sp ∉ rs := by simpa using hrs
    obtain ⟨hfits, hroom⟩ := room_of_succ h (m.register r)
    have hsame : rs.map (m.pushed (m.register r)).register = rs.map m.register := by
      refine List.map_congr_left fun s hs => register_pushed _ _ ?_
      rintro rfl
      exact hrest hs
    have hpush : (do push (← readRegister r) : Action Fault Unit) m =
        .ok () (m.pushed (m.register r)) := push_eq_pushed _ hfits
    show ((do push (← readRegister r)) >>= fun _ => rs.forM _) m = _
    rw [Action.bind_of_ok hpush, ih hrest hroom, hsame]
    rfl

/-- A call for whose frame there is room pushes the frame and enters the
subroutine.  None of its pushes has to be looked at again. -/
theorem call_of_room {m : Machine} (target : UInt16)
    (h : m.checkRoom frameWords = .ok ()) :
    call target m = .ok () ((m.pushedAll m.frame).entered target) := by
  have hten :
      m.checkRoom ((Register.general.map m.register).length + 2) = .ok () := h
  obtain ⟨height, htwo⟩ := room_of_add hten
  have hsaved := forM_push_register Register.general (by decide) height
  -- The return address and the frame size go on top of the eight registers.
  generalize hm₈ : m.pushedAll (Register.general.map m.register) = m₈ at htwo hsaved
  have hip : m₈.ip = m.ip := by rw [← hm₈]; exact register_pushedAll _ _ (by decide)
  have hcount : m₈.frameBytes = m.frameBytes + 16 := by
    rw [← hm₈]; exact frameBytes_pushedAll ..
  obtain ⟨hfits₈, hone⟩ := room_of_succ htwo m₈.ip
  obtain ⟨hfits₉, -⟩ := room_of_succ hone (m.frameBytes + 20)
  have hsize : (m₈.pushed m₈.ip).frameBytes + 2 = m.frameBytes + 20 := by
    show m₈.frameBytes + 2 + 2 = _
    rw [hcount]
    grind
  have hframe :
      m.pushedAll m.frame = (m₈.pushed m₈.ip).pushed (m.frameBytes + 20) := by
    rw [frame, pushedAll_append, hm₈, hip]
    rfl
  have haddress : readRegister .ip m₈ = .ok m₈.ip m₈ := rfl
  have hlast := push_eq_pushed (m.frameBytes + 20) hfits₉
  rw [← hsize] at hlast hframe
  unfold call
  rw [Action.bind_of_ok (Action.get_apply m), h, hframe]
  simp only
  rw [Action.bind_of_ok hsaved, Action.bind_of_ok haddress,
    Action.bind_of_ok (push_eq_pushed _ hfits₈),
    Action.bind_of_ok (Action.get_apply _), Action.bind_of_ok hlast]
  rfl

/-- A call for whose frame there is no room does nothing, not even to the slots
that it could have written. -/
theorem call_of_no_room {m : Machine} {e : OutOfBounds} (target : UInt16)
    (h : m.checkRoom frameWords = .error e) :
    call target m = .error (.memory e) m := by
  unfold call
  rw [Action.bind_of_ok (Action.get_apply m), h]
  rfl

/-- A call that has succeeded found room for its frame.  With the two facts
above, this is all there is to say of a call. -/
theorem call_eq_ok {m m' : Machine} {target : UInt16}
    (h : call target m = .ok () m') :
    m.checkRoom frameWords = .ok () ∧
      m' = (m.pushedAll m.frame).entered target := by
  cases hroom : m.checkRoom frameWords with
  | ok room =>
    have hm' := (call_of_room target hroom).symm.trans h
    injection hm' with _ hm'
    exact ⟨rfl, hm'.symm⟩
  | error e =>
    have hcontra := (call_of_no_room target hroom).symm.trans h
    injection hcontra

end Machine

end StackMachine
