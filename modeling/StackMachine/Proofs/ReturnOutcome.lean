import StackMachine.Proofs.Pops

/-!
# The outcome of a return

A return trusts what it finds above the frame pointer, whether or not a call has
put it there.  Here is what it does in any memory: how many words it reads,
which of them stops it, and what it makes of them if none does.

## Main definitions

* `Memory.wordAbove` — a word above an address, told by its place in the row
* `Memory.ReachesOnly`, `Memory.gapAbove` — the first word above an address that
  is not in memory, and the complaint about it
* `Machine.argumentCount` — the word that a return takes for the count of the
  arguments
* `Machine.Returned` — what a return leaves, told from the frame pointer and the
  memory
* `EndsAlike` — the outcomes of two runs are the same

## Main statements

* `Machine.drop_of_gap`, `Machine.forM_pop_of_gap` — the two loops of a return,
  where they are stopped
* `Machine.ret_of_reaches`, `Machine.ret_of_gap` — a return that finds all its
  words, and one that does not
* `Machine.returned_unique` — there is only one machine that a return may leave
* `Machine.ret_outcome` — the outcome of a return, and what it depends on

## Design notes

**The row is read upwards and only once.**  Every word that a return reads is
one above the last, also where the addresses wrap around, and the count of the
arguments is the eleventh of them.  So if one of the first eleven is not in
memory, it makes no difference which count is used to say how long the row is;
`argumentCount` is then zero.

**A row may be longer than the address space.**  A count of more than 32757
leads the return past its own frame pointer and over words it has read before.
Nothing is written, so they are the same words still.
-/

namespace StackMachine

namespace Memory

variable {m : Memory} {address : UInt16} {count k : Nat}

/-- The word so many places above an address, and zero if it does not lie in
memory. -/
def wordAbove (m : Memory) (address : UInt16) (place : Nat) : UInt16 :=
  (m.readWord (address + UInt16.ofNat (2 * place)).toNat).toOption.getD 0

/-- A word that lies in memory is read as the one that stands there. -/
theorem readWord_wordAbove (place : Nat)
    (h : (address + UInt16.ofNat (2 * place)).toNat + 2 ≤ m.size) :
    m.readWord (address + UInt16.ofNat (2 * place)).toNat =
      .ok (m.wordAbove address place) := by
  rw [wordAbove, readWord_of_le h]
  rfl

theorem wordAbove_succ (place : Nat) :
    m.wordAbove (address + 2) place = m.wordAbove address (place + 1) := by
  rw [wordAbove, wordAbove, next_of_row]

/-- Words that lie in memory stand there in a row, whatever they are.  So a
return is looked at without knowing who has pushed them. -/
theorem Reaches.wordsFrom (h : m.Reaches address count) :
    m.WordsFrom (address + 2)
      ((List.range count).map fun k => m.wordAbove address (k + 1)) := by
  induction count generalizing address with
  | zero => trivial
  | succ count ih =>
    obtain ⟨hfirst, hrest⟩ := reaches_succ.1 h
    rw [List.range_succ_eq_map, List.map_cons, List.map_map]
    refine ⟨readWord_wordAbove 1 hfirst, ?_⟩
    have hwords := ih hrest
    simp only [wordAbove_succ] at hwords
    exact hwords

/-- So many words above an address lie in memory, and the next one does not. -/
def ReachesOnly (m : Memory) (address : UInt16) (count : Nat) : Prop :=
  m.Reaches address count ∧
    m.size < (address + UInt16.ofNat (2 * (count + 1))).toNat + 2

/-- The complaint about the word behind so many others above an address. -/
def gapAbove (m : Memory) (address : UInt16) (count : Nat) : OutOfBounds :=
  ⟨(address + UInt16.ofNat (2 * (count + 1))).toNat, 2, m.size⟩

theorem reachesOnly_succ :
    m.ReachesOnly address (count + 1) ↔
      (address + 2).toNat + 2 ≤ m.size ∧ m.ReachesOnly (address + 2) count := by
  rw [ReachesOnly, ReachesOnly, reaches_succ, next_of_row, and_assoc]

/-- Places in a row are added as numbers are, though addresses wrap around. -/
theorem place_add (address : UInt16) (count place : Nat) :
    address + UInt16.ofNat (2 * count) + UInt16.ofNat (2 * place) =
      address + UInt16.ofNat (2 * (count + place)) := by
  rw [UInt16.add_assoc, ← UInt16.ofNat_add, ← Nat.mul_add]

/-- The rest of a row that lies in memory does so too. -/
theorem Reaches.add (h : m.Reaches address (count + k)) :
    m.Reaches (address + UInt16.ofNat (2 * count)) k := by
  intro j hj
  rw [place_add]
  exact h (count + j) (Nat.add_lt_add_left hj count)

/-- If a row ends early, so does its rest, as much earlier. -/
theorem ReachesOnly.add (h : m.ReachesOnly address (count + k)) :
    m.ReachesOnly (address + UInt16.ofNat (2 * count)) k := by
  refine ⟨h.1.add, ?_⟩
  rw [place_add]
  exact h.2

/-- What is missing is the same, counted from further on. -/
theorem gapAbove_add (m : Memory) (address : UInt16) (count k : Nat) :
    m.gapAbove address (count + k) =
      m.gapAbove (address + UInt16.ofNat (2 * count)) k := by
  rw [gapAbove, gapAbove, place_add, Nat.add_assoc]

theorem gapAbove_succ (m : Memory) (address : UInt16) (count : Nat) :
    m.gapAbove address (count + 1) = m.gapAbove (address + 2) count := by
  rw [gapAbove, gapAbove, next_of_row]

/-- If not all of a row lies in memory, there is a first word that does not.
This is the one that a return complains about. -/
theorem exists_reachesOnly (h : ¬m.Reaches address count) :
    ∃ k < count, m.ReachesOnly address k := by
  induction count with
  | zero => exact absurd (fun k hk => absurd hk (Nat.not_lt_zero k)) h
  | succ count ih =>
    by_cases hinit : m.Reaches address count
    · refine ⟨count, Nat.lt_succ_self count, hinit, ?_⟩
      by_contra hlast
      refine h fun k hk => ?_
      rcases Nat.lt_succ_iff_lt_or_eq.1 hk with hk | rfl
      · exact hinit k hk
      · exact Nat.not_lt.1 hlast
    · obtain ⟨k, hk, hgap⟩ := ih hinit
      exact ⟨k, Nat.lt_succ_of_lt hk, hgap⟩

/-- The first word outside memory is not among those inside. -/
theorem ReachesOnly.le (h : m.ReachesOnly address k)
    (hall : m.Reaches address count) :
    count ≤ k := by
  by_contra hk
  exact absurd (hall k (Nat.not_le.1 hk)) (Nat.not_le.2 h.2)

end Memory

/-- Two runs end alike: both succeed and leave the same machine, or both
fail for one reason. -/
def EndsAlike {ε α : Type} :
    EStateM.Result ε Machine α → EStateM.Result ε Machine α → Prop
  | .ok a m, .ok b m' => a = b ∧ m = m'
  | .error e _, .error e' _ => e = e'
  | _, _ => False

namespace Machine

variable {m m' m₁ m₂ : Machine} {count k : Nat}

/-! ### Pops that are stopped -/

/-- A pop whose word is missing complains about that word. -/
theorem pop_of_gap (h : m.memory.ReachesOnly m.sp 0) :
    pop m = .error (.memory (m.memory.gapAbove m.sp 0)) m.popped := by
  have hread :
      m.memory.readWord (m.sp + 2).toNat = .error (m.memory.gapAbove m.sp 0) :=
    Memory.readWord_of_lt h.2
  rw [pop_eq, hread]
  rfl

/-- Words are dropped up to the first that is not in memory. -/
theorem drop_of_gap (h : m.memory.ReachesOnly m.sp k) (hk : k < count) :
    ∃ m', drop count m = .error (.memory (m.memory.gapAbove m.sp k)) m' := by
  induction count generalizing m k with
  | zero => exact absurd hk (Nat.not_lt_zero k)
  | succ count ih =>
    cases k with
    | zero => exact ⟨_, Action.bind_of_error (pop_of_gap h) _⟩
    | succ k =>
      obtain ⟨hfirst, hrest⟩ := Memory.reachesOnly_succ.1 h
      have hpop := pop_eq_popped (Memory.readWord_of_le hfirst)
      rw [← sp_popped] at hrest
      obtain ⟨m', hdrop⟩ := ih hrest (Nat.lt_of_succ_lt_succ hk)
      refine ⟨m', ?_⟩
      rw [drop, Action.bind_of_ok hpop, hdrop, Memory.gapAbove_succ, sp_popped]
      rfl

/-- Registers are filled up to the first word that is not in memory.  Which have
been filled is left open, as a step that fails undoes it. -/
theorem forM_pop_of_gap {rs : List Register} (hrs : .sp ∉ rs)
    (h : m.memory.ReachesOnly m.sp k) (hk : k < rs.length) :
    ∃ m', (rs.forM fun r => do writeRegister r (← pop)) m =
      .error (.memory (m.memory.gapAbove m.sp k)) m' := by
  induction rs generalizing m k with
  | nil => exact absurd hk (Nat.not_lt_zero k)
  | cons r rs ih =>
    obtain ⟨hr, hsp⟩ : Register.sp ≠ r ∧ .sp ∉ rs := by simpa using hrs
    cases k with
    | zero =>
      have hone : (do writeRegister r (← pop) : Action Fault Unit) m = .error _ _ :=
        Action.bind_of_error (pop_of_gap h) _
      exact ⟨_, Action.bind_of_error hone _⟩
    | succ k =>
      obtain ⟨hfirst, hrest⟩ := Memory.reachesOnly_succ.1 h
      have hpop := pop_eq_popped (Memory.readWord_of_le hfirst)
      generalize m.memory.wordAt _ hfirst = word at hpop
      have hone : (do writeRegister r (← pop) : Action Fault Unit) m =
          .ok () (m.popped.setRegister r word) := by
        rw [Action.bind_of_ok hpop]
        rfl
      have hnext : (m.popped.setRegister r word).sp = m.sp + 2 :=
        (TakesOff.popped_into m hr.symm word).sp
      rw [← hnext] at hrest
      obtain ⟨m', hrun⟩ := ih hsp hrest (Nat.lt_of_succ_lt_succ hk)
      refine ⟨m', ?_⟩
      show ((do writeRegister r (← pop)) >>= fun _ => rs.forM _) m = _
      rw [Action.bind_of_ok hone, Memory.gapAbove_succ, ← hnext]
      exact hrun

/-! ### Returns -/

/-- The word that a return takes for the count of the arguments: the eleventh
above the frame pointer, and zero if that is not in memory. -/
def argumentCount (m : Machine) : Nat := (m.memory.wordAbove m.fp 11).toNat

/-- How many words a return reads: those of a frame, the count and the arguments. -/
def returnWords (m : Machine) : Nat := 11 + m.argumentCount

/-- What a return leaves if it succeeds, told from the frame pointer and
the words above it. -/
structure Returned (m m' : Machine) : Prop where
  /-- Nothing is written. -/
  memory : m'.memory = m.memory
  /-- The return address is the second word. -/
  ip : m'.ip = m.memory.wordAbove m.fp 2
  /-- The general registers, from the last to the first, are the third
  word to the tenth. -/
  general : Register.general.reverse.map m'.register =
    (List.range 8).map fun k => m.memory.wordAbove m.fp (3 + k)
  /-- The stack pointer is at the last word read. -/
  sp : m'.sp = m.fp + UInt16.ofNat (2 * m.returnWords)
  /-- The frame pointer is moved up by the first word. -/
  fp : m'.fp = m.fp + m.memory.wordAbove m.fp 1
  /-- All pops are counted but that of the frame size. -/
  frameBytes : m'.frameBytes =
    m.memory.wordAbove m.fp 1 - UInt16.ofNat (2 * (10 + m.argumentCount))
  /-- The accumulator is as it was. -/
  acc : m'.acc = m.acc
  /-- So is the record of the run. -/
  record : SameRecord m m'

/-- The row of a return starts with the words of a frame.  They need not have
come from a call. -/
theorem frame_of_reaches (h : m.memory.Reaches m.fp 10) :
    m.memory.WordsFrom (m.fp + 2)
      (m.memory.wordAbove m.fp 1 :: m.memory.wordAbove m.fp 2 ::
      Register.general.reverse.map fun r =>
        m.memory.wordAbove m.fp (12 - r.index)) := h.wordsFrom

/-- A return succeeds if all the words that it reads lie in memory. -/
theorem ret_of_reaches (h : m.memory.Reaches m.fp m.returnWords) :
    ∃ m', ret m = .ok () m' ∧ Returned m m' := by
  have hframe : m.memory.Reaches m.fp 10 := fun k hk =>
    h k (Nat.lt_of_lt_of_le hk (Nat.le_trans (by decide) (Nat.le_add_right 11 _)))
  have hcount :
      m.memory.readWord (m.fp + 22).toNat = .ok (m.memory.wordAbove m.fp 11) :=
    Memory.readWord_wordAbove 11
      (h 10 (Nat.lt_of_lt_of_le (by decide) (Nat.le_add_right 11 _)))
  have habove : m.memory.Reaches (m.fp + 22) m.argumentCount := h.add
  obtain ⟨m', hret, hdown⟩ := ret_of_frame (frame_of_reaches hframe) hcount habove
  refine ⟨m', hret, hdown.memory, hdown.ip, ?_, ?_, hdown.fp, ?_, hdown.acc,
    .of_undoable (confined_ret.of_ok hret)⟩
  · exact List.map_congr_left fun r hr => hdown.general r (List.mem_reverse.1 hr)
  · rw [hdown.sp, returnWords, Nat.mul_add, UInt16.ofNat_add, ← UInt16.add_assoc]
    rfl
  · rw [hdown.frameBytes, Nat.mul_add, UInt16.ofNat_add]
    show _ - 20 - UInt16.ofNat (2 * m.argumentCount) = _
    grind

/-- A return is stopped by the first word of the frame that is not in memory. -/
theorem ret_of_gap_in_frame (h : m.memory.ReachesOnly m.fp k) (hk : k < 10) :
    ∃ m', ret m = .error (.memory (m.memory.gapAbove m.fp k)) m' := by
  generalize hm₁ : m.setRegister .sp m.fp = m₁
  have hsp₁ : m₁.sp = m.fp := by rw [← hm₁]; exact register_setRegister_self ..
  have hmemory₁ : m₁.memory = m.memory := by rw [← hm₁]; rfl
  rw [← hmemory₁, ← hsp₁] at h ⊢
  unfold ret
  rw [Action.bind_of_ok (readRegister_apply .fp m),
    Action.bind_of_ok (writeRegister_apply ..)]
  show ∃ m', (pop >>= _) (m.setRegister .sp m.fp) = _
  rw [hm₁]
  cases k with
  | zero => exact ⟨_, Action.bind_of_error (pop_of_gap h) _⟩
  | succ k =>
    obtain ⟨hsize, h⟩ := Memory.reachesOnly_succ.1 h
    rw [Action.bind_of_ok (pop_eq_popped (Memory.readWord_of_le hsize))]
    -- The frame size takes the place of the frame count, of which no pop takes
    -- notice.
    generalize m₁.memory.wordAt _ hsize = frameSize
    have hmodify :
        (modify fun m => { m with frameBytes := frameSize } : Action Fault PUnit)
        m₁.popped = .ok () { m₁.popped with frameBytes := frameSize } := rfl
    rw [Action.bind_of_ok hmodify, Memory.gapAbove_succ]
    generalize hm₂ : { m₁.popped with frameBytes := frameSize } = m₂
    have hsp₂ : m₂.sp = m₁.sp + 2 := by rw [← hm₂]; exact sp_popped m₁
    have hmemory₂ : m₂.memory = m₁.memory := by rw [← hm₂]; rfl
    rw [← hmemory₂, ← hsp₂] at h ⊢
    cases k with
    | zero => exact ⟨_, Action.bind_of_error (pop_of_gap h) _⟩
    | succ k =>
      obtain ⟨haddress, h⟩ := Memory.reachesOnly_succ.1 h
      have hpop := pop_eq_popped (Memory.readWord_of_le haddress)
      generalize m₂.memory.wordAt _ haddress = address at hpop
      have hsp₃ : (m₂.popped.setRegister .ip address).sp = m₂.sp + 2 :=
        (TakesOff.popped_into m₂ (by decide) address).sp
      rw [← hsp₃] at h
      have hnosp : Register.sp ∉ Register.general.reverse := by decide
      obtain ⟨m', hrun⟩ := forM_pop_of_gap hnosp h (Nat.lt_of_add_lt_add_right hk)
      refine ⟨m', ?_⟩
      rw [Action.bind_of_ok hpop, Action.bind_of_ok (writeRegister_apply ..),
        Memory.gapAbove_succ, ← hsp₃]
      exact Action.bind_of_error hrun _

/-- A return is stopped by the first of its words that is not in memory, be it
in the frame, the count or one of the arguments. -/
theorem ret_of_gap (h : m.memory.ReachesOnly m.fp k) (hk : k < m.returnWords) :
    ∃ m', ret m = .error (.memory (m.memory.gapAbove m.fp k)) m' := by
  rcases Nat.lt_or_ge k 10 with hframe | hframe
  · exact ret_of_gap_in_frame h hframe
  · obtain ⟨k, rfl⟩ := Nat.exists_eq_add_of_le hframe
    have hten : m.memory.Reaches m.fp 10 :=
      fun j hj => h.1 j (Nat.lt_of_lt_of_le hj hframe)
    obtain ⟨m₁, hdown, hret⟩ := ret_eq_drop (frame_of_reaches hten)
    have hgap := h.add
    rw [Memory.gapAbove_add, hret]
    rw [show m.fp + UInt16.ofNat (2 * 10) = m₁.sp from hdown.sp.symm,
      ← hdown.memory] at hgap ⊢
    cases k with
    | zero => exact ⟨_, Action.bind_of_error (pop_of_gap hgap) _⟩
    | succ k =>
      obtain ⟨hcount, hgap⟩ := Memory.reachesOnly_succ.1 hgap
      have hpop : pop m₁ = .ok (m.memory.wordAbove m.fp 11) m₁.popped := by
        refine pop_eq_popped ?_
        rw [hdown.memory, hdown.top] at *
        exact Memory.readWord_wordAbove 11 hcount
      rw [← sp_popped] at hgap
      have harguments : k < m.argumentCount := by
        rw [returnWords] at hk
        omega
      obtain ⟨m', hdrop⟩ := drop_of_gap hgap harguments
      refine ⟨m', ?_⟩
      rw [Action.bind_of_ok hpop, Memory.gapAbove_succ, ← sp_popped]
      exact Action.bind_of_error hdrop _

/-- A return finds all its words and succeeds, or is stopped by the first that
is missing.  There is no other way for it to fail. -/
theorem ret_cases (m : Machine) :
    (m.memory.Reaches m.fp m.returnWords ∧ ∃ m', ret m = .ok () m' ∧
      Returned m m') ∨
      ∃ k < m.returnWords, m.memory.ReachesOnly m.fp k ∧
        ∃ m', ret m = .error (.memory (m.memory.gapAbove m.fp k)) m' := by
  by_cases h : m.memory.Reaches m.fp m.returnWords
  · exact .inl ⟨h, ret_of_reaches h⟩
  · obtain ⟨k, hk, hfirst⟩ := Memory.exists_reachesOnly h
    exact .inr ⟨k, hk, hfirst, ret_of_gap hfirst hk⟩

/-! ### What the outcome depends on -/

variable {other other' : Machine}

/-- The count is a matter of memory and frame pointer. -/
theorem argumentCount_congr (hmemory : other.memory = m.memory)
    (hfp : other.fp = m.fp) :
    other.argumentCount = m.argumentCount := by
  rw [argumentCount, hmemory, hfp, argumentCount]

theorem returnWords_congr (hmemory : other.memory = m.memory)
    (hfp : other.fp = m.fp) :
    other.returnWords = m.returnWords := by
  rw [returnWords, argumentCount_congr hmemory hfp, returnWords]

/-- There is only one machine that a return may leave, and of the machine
before it nothing but the memory, the frame pointer, the accumulator and the
record goes into it. -/
theorem returned_unique (h : Returned m m') (h' : Returned other other')
    (hmemory : other.memory = m.memory) (hfp : other.fp = m.fp)
    (hacc : other.acc = m.acc) (hrecord : SameRecord m other) : m' = other' := by
  have hcount := argumentCount_congr hmemory hfp
  have hwords := returnWords_congr hmemory hfp
  have hgeneral : Register.general.reverse.map other'.register =
      Register.general.reverse.map m'.register := by
    rw [h'.general, h.general, hmemory, hfp]
  have hregister : ∀ r, other'.register r = m'.register r := by
    intro r
    have hsaved : ∀ r ∈ Register.general.reverse, other'.register r =
        m'.register r :=
      List.map_inj_left.1 hgeneral
    cases r with
    | ip => exact h'.ip.trans (by rw [hmemory, hfp]; exact h.ip.symm)
    | acc => exact h'.acc.trans (hacc.trans h.acc.symm)
    | sp => exact h'.sp.trans (by rw [hfp, hwords]; exact h.sp.symm)
    | fp => exact h'.fp.trans (by rw [hmemory, hfp]; exact h.fp.symm)
    | _ => exact hsaved _ (by decide)
  have hbank : other'.bank = m'.bank := Bank.ext_get hregister
  have hwritten : other'.memory = m'.memory :=
    h'.memory.trans (hmemory.trans h.memory.symm)
  have hcounted : other'.frameBytes = m'.frameBytes := by
    rw [h'.frameBytes, h.frameBytes, hmemory, hfp, hcount]
  have hother := hrecord.trans h'.record
  have hsame := h.record
  refine Eq.symm ?_
  cases m'
  cases other'
  rw [Machine.mk.injEq]
  exact ⟨hbank, hwritten, hother.state.trans hsame.state.symm,
    hother.cycles.trans hsame.cycles.symm,
    hother.policy.trans hsame.policy.symm, hcounted,
    hother.lastOpcode.trans hsame.lastOpcode.symm⟩

/-- Machines that agree in all this return alike, and fail alike. -/
theorem endsAlike_ret (hmemory : other.memory = m.memory)
    (hfp : other.fp = m.fp) (hacc : other.acc = m.acc)
    (hrecord : SameRecord m other) : EndsAlike (ret m) (ret other) := by
  have hwords := returnWords_congr hmemory hfp
  rcases ret_cases m with ⟨h, m', hret, hreturned⟩ | ⟨k, hk, h, m', hret⟩
  · rw [← hmemory, ← hfp, ← hwords] at h
    obtain ⟨other', hret', hreturned'⟩ := ret_of_reaches h
    rw [hret, hret']
    exact ⟨rfl, returned_unique hreturned hreturned' hmemory hfp hacc hrecord⟩
  · rw [← hmemory, ← hfp] at h hret
    rw [← hwords] at hk
    obtain ⟨other', hret'⟩ := ret_of_gap h hk
    rw [hret, hret']
    rfl

/-- A return reads a frame, a count and as many words as it says, one above the
other from the frame pointer on.  It succeeds exactly if all of them lie in
memory, and if not, it complains about the first that does not.  What it leaves
is told by these words alone, so the outcome is the same whatever the other
pointers, the general registers and the frame count were. -/
theorem ret_outcome (m : Machine) :
    ((∃ m', ret m = .ok () m') ↔ m.memory.Reaches m.fp m.returnWords) ∧
      (∀ m', ret m = .ok () m' → Returned m m') ∧
      (∀ e m', ret m = .error e m' →
        ∃ k < m.returnWords, m.memory.ReachesOnly m.fp k ∧
          e = .memory (m.memory.gapAbove m.fp k)) ∧
      ∀ (bank : Bank) (frameBytes : UInt16), bank.get .fp = m.fp →
        bank.get .acc = m.acc →
        EndsAlike (ret m) (ret { m with bank, frameBytes }) := by
  have halike : ∀ (bank : Bank) (frameBytes : UInt16), bank.get .fp = m.fp →
      bank.get .acc = m.acc →
        EndsAlike (ret m) (ret { m with bank, frameBytes }) := by
    intro bank frameBytes hfp hacc
    exact endsAlike_ret rfl hfp hacc (.of_undoable (undoable_of m bank frameBytes))
  rcases ret_cases m with ⟨h, m₁, hret, hreturned⟩ | ⟨k, hk, h, m₁, hret⟩
  · refine ⟨⟨fun _ => h, fun _ => ⟨m₁, hret⟩⟩, ?_, ?_, halike⟩
    · intro m' hok
      cases hret.symm.trans hok
      exact hreturned
    · intro e m' herror
      cases hret.symm.trans herror
  · refine ⟨⟨?_, ?_⟩, ?_, ?_, halike⟩
    · rintro ⟨m', hok⟩
      cases hret.symm.trans hok
    · intro hall
      exact absurd (h.le hall) (Nat.not_le.2 hk)
    · intro m' hok
      cases hret.symm.trans hok
    · intro e m' herror
      cases hret.symm.trans herror
      exact ⟨k, hk, h, rfl⟩

end Machine

end StackMachine
