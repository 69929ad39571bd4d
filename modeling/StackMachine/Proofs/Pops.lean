import StackMachine.Proofs.CallFrame

/-!
# Pops in a row

A return is a row of pops: of a frame size, a return address, eight registers,
the count of the arguments, and as many words as it says.  What it does follows
from the words that stand above the frame pointer, wherever in memory that is.

## Main definitions

* `Memory.Reaches` — so many words above an address lie in memory
* `Machine.TakesOff` — a machine that comes from another by pops into some
  registers
* `Machine.AtCount` — a machine that has taken a frame down and stands at the
  count
* `Machine.TakenDown` — a machine that has returned from a frame

## Main statements

* `Machine.forM_pop_register`, `Machine.drop_of_reaches` — the two loops of a
  return
* `Machine.ret_of_frame` — a return from a frame at the frame pointer
* `Machine.reaches_of_ret` — what lies in memory if a return succeeds

## Design notes

**The frame count after a return** starts from the frame size and loses two for
every pop behind it.  The pop of the frame size itself came before it was set,
so one of the pops that took down the frame and the arguments is not counted.
-/

namespace StackMachine

namespace Memory

variable {m m' : Memory} {address : UInt16} {words : List UInt16}

/-- So many words above an address lie in memory. -/
def Reaches (m : Memory) (address : UInt16) (count : Nat) : Prop :=
  ∀ k < count, (address + UInt16.ofNat (2 * (k + 1))).toNat + 2 ≤ m.size

/-- A row of words lies in memory if the first does and the others do. -/
theorem reaches_succ {count : Nat} :
    m.Reaches address (count + 1) ↔
      (address + 2).toNat + 2 ≤ m.size ∧ m.Reaches (address + 2) count := by
  constructor
  · intro h
    refine ⟨h 0 (Nat.succ_pos count), fun k hk => ?_⟩
    rw [next_of_row]
    exact h (k + 1) (Nat.succ_lt_succ hk)
  · rintro ⟨hfirst, hrest⟩ k hk
    cases k with
    | zero => exact hfirst
    | succ k =>
      rw [← next_of_row]
      exact hrest k (Nat.lt_of_succ_lt_succ hk)

/-- A row of words that are read lies in memory.  So what a return reads need
not be tested again. -/
theorem WordsFrom.reaches (h : m.WordsFrom (address + 2) words) :
    m.Reaches address words.length := by
  induction words generalizing address with
  | nil => exact fun k hk => absurd hk (Nat.not_lt_zero k)
  | cons word words ih =>
    obtain ⟨hword, hrest⟩ := h
    exact reaches_succ.2 ⟨fits_of_readWord hword, ih hrest⟩

end Memory

namespace Machine

variable {m m₁ m₂ m' : Machine} {pops others : Nat} {targets more : List Register}

/-- The second machine comes from the first by pops, into some
registers or into none. -/
structure TakesOff (m m' : Machine) (pops : Nat)
    (targets : List Register) : Prop where
  /-- Nothing is written. -/
  memory : m'.memory = m.memory
  /-- Every pop moves the stack pointer. -/
  sp : m'.sp = m.sp + UInt16.ofNat (2 * pops)
  /-- Every pop is counted. -/
  frameBytes : m'.frameBytes = m.frameBytes - UInt16.ofNat (2 * pops)
  /-- Other registers but the stack pointer keep their words. -/
  register : ∀ r, r ∉ targets → r ≠ .sp → m'.register r = m.register r

namespace TakesOff

theorem refl (m : Machine) : TakesOff m m 0 [] :=
  ⟨rfl, (UInt16.add_zero _).symm, (UInt16.sub_zero _).symm, fun _ _ _ => rfl⟩

/-- A pop takes off one word. -/
theorem popped (m : Machine) : TakesOff m m.popped 1 [] :=
  ⟨rfl, sp_popped m, rfl, fun _ _ hr => register_popped m hr⟩

/-- A pop into a register takes off one word and changes that register. -/
theorem popped_into (m : Machine) {r : Register} (hr : r ≠ .sp) (word : UInt16) :
    TakesOff m (m.popped.setRegister r word) 1 [r] := by
  refine ⟨rfl, ?_, rfl, ?_⟩
  · exact (register_setRegister_of_ne _ _ hr).trans (sp_popped m)
  · intro s hs hsp
    have hne : r ≠ s := fun h => hs (List.mem_singleton.2 h.symm)
    rw [register_setRegister_of_ne _ _ hne, register_popped m hsp]

/-- Words that are taken off one after the other are counted together, and so
are the registers that they go to. -/
theorem trans (h₁ : TakesOff m m₁ pops targets) (h₂ : TakesOff m₁ m₂ others more) :
    TakesOff m m₂ (pops + others) (targets ++ more) where
  memory := h₂.memory.trans h₁.memory
  sp := by
    rw [h₂.sp, h₁.sp, Nat.mul_add, UInt16.ofNat_add, UInt16.add_assoc]
  frameBytes := by
    rw [h₂.frameBytes, h₁.frameBytes, Nat.mul_add, UInt16.ofNat_add]
    grind
  register r hr hsp := by
    rw [List.mem_append, not_or] at hr
    rw [h₂.register r hr.2 hsp, h₁.register r hr.1 hsp]

end TakesOff

/-! ### The two loops of a return -/

/-- Words are dropped if they lie in memory.  What they are does not matter, so
there is no condition on them. -/
theorem drop_of_reaches {count : Nat} (h : m.memory.Reaches m.sp count) :
    ∃ m', drop count m = .ok () m' ∧ TakesOff m m' count [] := by
  induction count generalizing m with
  | zero => exact ⟨m, rfl, .refl m⟩
  | succ count ih =>
    obtain ⟨hfirst, hrest⟩ := Memory.reaches_succ.1 h
    rw [← sp_popped] at hrest
    have hpop := pop_eq_popped (Memory.readWord_of_le hfirst)
    obtain ⟨m', hdrop, htakes⟩ := ih hrest
    refine ⟨m', ?_, ?_⟩
    · rw [drop, Action.bind_of_ok hpop, hdrop]
    · rw [Nat.add_comm]
      exact (TakesOff.popped m).trans htakes

/-- Words that are dropped lie in memory.  The pointer may wrap around on the
way. -/
theorem reaches_of_drop {count : Nat} (h : drop count m = .ok () m') :
    m.memory.Reaches m.sp count := by
  induction count generalizing m with
  | zero => exact fun k hk => absurd hk (Nat.not_lt_zero k)
  | succ count ih =>
    obtain ⟨word, m₁, hpop, hdrop⟩ := Action.bind_eq_ok.1 h
    obtain ⟨hread, rfl⟩ := pop_eq_ok hpop
    have hrest := ih hdrop
    rw [sp_popped] at hrest
    exact Memory.reaches_succ.2 ⟨Memory.fits_of_readWord hread, hrest⟩

/-- Registers are filled from the stack, one after another.  No register is
filled twice, and none of them is the stack pointer, so each keeps the word
that it was given. -/
theorem forM_pop_register {rs : List Register} (hrs : .sp ∉ rs) (hnodup : rs.Nodup)
    {words : Register → UInt16} (h : m.memory.WordsFrom (m.sp + 2) (rs.map words)) :
    ∃ m', (rs.forM fun r => do writeRegister r (← pop)) m = .ok () m' ∧
      TakesOff m m' rs.length rs ∧ ∀ r ∈ rs, m'.register r = words r := by
  induction rs generalizing m with
  | nil => exact ⟨m, rfl, .refl m, fun r hr => nomatch hr⟩
  | cons r rs ih =>
    obtain ⟨hr, hsp⟩ : Register.sp ≠ r ∧ .sp ∉ rs := by simpa using hrs
    obtain ⟨hfresh, hdistinct⟩ := List.nodup_cons.1 hnodup
    obtain ⟨hword, hrest⟩ := h
    have hset : (do writeRegister r (← pop) : Action Fault Unit) m =
        .ok () (m.popped.setRegister r (words r)) := by
      rw [Action.bind_of_ok (pop_eq_popped hword)]
      rfl
    have hone := TakesOff.popped_into m hr.symm (words r)
    have hnext : (m.popped.setRegister r (words r)).sp = m.sp + 2 := hone.sp
    obtain ⟨m', hrun, htakes, hwords⟩ :=
      ih hsp hdistinct (by rw [hnext]; exact hrest)
    refine ⟨m', ?_, ?_, ?_⟩
    · show ((do writeRegister r (← pop)) >>= fun _ => rs.forM _) m = _
      rw [Action.bind_of_ok hset]
      exact hrun
    · rw [List.length_cons, Nat.add_comm]
      exact hone.trans htakes
    · -- No later pop goes to the first register again, as the registers are
      -- distinct.
      intro s hs
      rcases List.mem_cons.1 hs with rfl | hs
      · rw [htakes.register s hfresh hr.symm]
        exact register_setRegister_self ..
      · exact hwords s hs

/-! ### Returns -/

variable {frameSize address count : UInt16} {saved : Register → UInt16}

/-- A machine that has taken a frame of this content down and stands at the
count of the arguments. -/
structure AtCount (m m' : Machine) (frameSize address : UInt16)
    (saved : Register → UInt16) :
    Prop where
  /-- Nothing is written. -/
  memory : m'.memory = m.memory
  /-- The general registers are filled from the frame. -/
  general : ∀ r ∈ Register.general, m'.register r = saved r
  /-- The machine will go on at the return address. -/
  ip : m'.ip = address
  /-- The words of the frame are off the stack. -/
  sp : m'.sp = m.fp + 20
  /-- All pops are counted but that of the frame size. -/
  frameBytes : m'.frameBytes = frameSize - 18
  /-- The accumulator is not in the frame. -/
  acc : m'.acc = m.acc

/-- The count stands above the frame, at the eleventh word from the frame
pointer. -/
theorem AtCount.top (h : AtCount m m' frameSize address saved) :
    m'.sp + 2 = m.fp + 22 := by
  rw [h.sp, UInt16.add_assoc]
  rfl

/-- A return from a frame at the frame pointer takes the frame down, and then
what is above it.  Up to the count it cannot fail. -/
theorem ret_eq_drop (h : m.memory.WordsFrom (m.fp + 2)
      (frameSize :: address :: Register.general.reverse.map saved)) :
    ∃ m₁, AtCount m m₁ frameSize address saved ∧
      ret m = (do
        let count ← pop
        drop count.toNat
        writeRegister .fp (m.fp + frameSize)) m₁ := by
  obtain ⟨hsize, haddress, hwords⟩ := h
  generalize hm₁ : m.setRegister .sp m.fp = m₁
  have hsp₁ : m₁.sp = m.fp := by rw [← hm₁]; exact register_setRegister_self ..
  have hmemory₁ : m₁.memory = m.memory := by rw [← hm₁]; rfl
  have hpop₁ : pop m₁ = .ok frameSize m₁.popped := by
    refine pop_eq_popped ?_
    rw [hmemory₁, hsp₁]
    exact hsize
  -- The frame size takes the place of the count that has been running.
  generalize hm₂ : { m₁.popped with frameBytes := frameSize } = m₂
  have hsp₂ : m₂.sp = m.fp + 2 := by
    rw [← hm₂, ← hsp₁]
    exact sp_popped m₁
  have hmemory₂ : m₂.memory = m.memory := by rw [← hm₂]; exact hmemory₁
  have hacc₂ : m₂.acc = m.acc := by
    rw [← hm₂, ← hm₁]
    exact (register_popped _ (by decide)).trans
      (register_setRegister_of_ne _ _ (by decide))
  have hpop₂ : pop m₂ = .ok address m₂.popped := by
    refine pop_eq_popped ?_
    rw [hmemory₂, hsp₂]
    exact haddress
  have htakes₃ := TakesOff.popped_into m₂ (show Register.ip ≠ .sp by decide) address
  generalize hm₃ : m₂.popped.setRegister .ip address = m₃ at htakes₃
  have hip₃ : m₃.ip = address := by rw [← hm₃]; exact register_setRegister_self ..
  have hregisters :
      m₃.memory.WordsFrom (m₃.sp + 2) (Register.general.reverse.map saved) := by
    rw [htakes₃.memory, hmemory₂, htakes₃.sp, hsp₂]
    exact hwords
  obtain ⟨m₄, hrestore, htakes₄, hgeneral⟩ :=
    forM_pop_register (by decide) (by decide) hregisters
  have hall := htakes₃.trans htakes₄
  have hmodify :
      (modify fun m => { m with frameBytes := frameSize } : Action Fault PUnit)
      m₁.popped = .ok () m₂ := by rw [← hm₂]; rfl
  refine ⟨m₄, ⟨hall.memory.trans hmemory₂, ?_, ?_, ?_, ?_, ?_⟩, ?_⟩
  · intro r hr
    exact hgeneral r (List.mem_reverse.2 hr)
  · exact (htakes₄.register .ip (by decide) (by decide)).trans hip₃
  · rw [hall.sp, hsp₂, UInt16.add_assoc]
    rfl
  · rw [hall.frameBytes, ← hm₂]
    rfl
  · exact (hall.register .acc (by decide) (by decide)).trans hacc₂
  · unfold ret
    rw [Action.bind_of_ok (readRegister_apply .fp m),
      Action.bind_of_ok (writeRegister_apply ..)]
    show (pop >>= _) (m.setRegister .sp m.fp) = _
    rw [hm₁, Action.bind_of_ok hpop₁, Action.bind_of_ok hmodify,
      Action.bind_of_ok hpop₂, Action.bind_of_ok (writeRegister_apply ..), hm₃,
      Action.bind_of_ok hrestore]
    rfl

/-- The machine behind a return from a frame of this content, with so many
arguments above it. -/
structure TakenDown (m m' : Machine) (frameSize address : UInt16)
    (saved : Register → UInt16)
    (count : UInt16) : Prop where
  /-- Nothing is written. -/
  memory : m'.memory = m.memory
  /-- The general registers are filled from the frame. -/
  general : ∀ r ∈ Register.general, m'.register r = saved r
  /-- The machine goes on at the return address. -/
  ip : m'.ip = address
  /-- The frame, the count and the arguments are off the stack. -/
  sp : m'.sp = m.fp + 22 + UInt16.ofNat (2 * count.toNat)
  /-- The frame pointer is moved up by the frame size. -/
  fp : m'.fp = m.fp + frameSize
  /-- All pops are counted but that of the frame size. -/
  frameBytes : m'.frameBytes = frameSize - 20 - UInt16.ofNat (2 * count.toNat)
  /-- The accumulator is not in the frame. -/
  acc : m'.acc = m.acc

/-- A return succeeds if the count of the arguments and the arguments lie in
memory.  What the callee left on the stack below the frame is not looked at. -/
theorem ret_of_frame (h : m.memory.WordsFrom (m.fp + 2)
      (frameSize :: address :: Register.general.reverse.map saved))
    (hcount : m.memory.readWord (m.fp + 22).toNat = .ok count)
    (hreaches : m.memory.Reaches (m.fp + 22) count.toNat) :
    ∃ m', ret m = .ok () m' ∧ TakenDown m m' frameSize address saved count := by
  obtain ⟨m₁, hdown, hret⟩ := ret_eq_drop h
  have htop := hdown.top
  have hpop : pop m₁ = .ok count m₁.popped := by
    refine pop_eq_popped ?_
    rw [hdown.memory, htop]
    exact hcount
  obtain ⟨m₂, hdrop, htakes⟩ : ∃ m₂, drop count.toNat m₁.popped = .ok () m₂ ∧
      TakesOff m₁.popped m₂ count.toNat [] := by
    refine drop_of_reaches ?_
    rw [sp_popped, htop]
    exact hdown.memory ▸ hreaches
  have hall := (TakesOff.popped m₁).trans htakes
  have hother : ∀ r, r ≠ .sp → r ≠ .fp →
      (m₂.setRegister .fp (m.fp + frameSize)).register r = m₁.register r := by
    intro r hsp hfp
    rw [register_setRegister_of_ne _ _ hfp.symm]
    exact hall.register r List.not_mem_nil hsp
  refine ⟨m₂.setRegister .fp (m.fp + frameSize), ?_, ?_, ?_, ?_, ?_, ?_, ?_, ?_⟩
  · rw [hret, Action.bind_of_ok hpop, Action.bind_of_ok hdrop]
    rfl
  · exact hall.memory.trans hdown.memory
  · intro r hr
    have hsp : r ≠ .sp := by rintro rfl; revert hr; decide
    have hfp : r ≠ .fp := by rintro rfl; revert hr; decide
    exact (hother r hsp hfp).trans (hdown.general r hr)
  · exact (hother .ip (by decide) (by decide)).trans hdown.ip
  · have hsp : m₂.sp = m₁.sp + 2 + UInt16.ofNat (2 * count.toNat) := by
      rw [htakes.sp, sp_popped]
    exact (register_setRegister_of_ne _ _ (by decide)).trans
      (hsp.trans (by rw [htop]))
  · exact register_setRegister_self ..
  · show m₂.frameBytes = _
    rw [hall.frameBytes, hdown.frameBytes, Nat.mul_add, UInt16.ofNat_add]
    show frameSize - 18 - (2 + UInt16.ofNat (2 * count.toNat)) = _
    grind
  · exact (hother .acc (by decide) (by decide)).trans hdown.acc

/-- A return that succeeds has found the count of the arguments and the arguments
in memory.  With the converse above it is known when a return fails. -/
theorem reaches_of_ret (h : m.memory.WordsFrom (m.fp + 2)
      (frameSize :: address :: Register.general.reverse.map saved))
    (hok : ret m = .ok () m') :
    ∃ count, m.memory.readWord (m.fp + 22).toNat = .ok count ∧
      m.memory.Reaches (m.fp + 22) count.toNat := by
  obtain ⟨m₁, hdown, hret⟩ := ret_eq_drop h
  have htop := hdown.top
  rw [hret] at hok
  obtain ⟨count, m₂, hpop, hrest⟩ := Action.bind_eq_ok.1 hok
  obtain ⟨hread, rfl⟩ := pop_eq_ok hpop
  obtain ⟨_, m₃, hdrop, -⟩ := Action.bind_eq_ok.1 hrest
  have hreaches := reaches_of_drop hdrop
  rw [sp_popped, htop] at hreaches
  rw [hdown.memory, htop] at hread
  exact ⟨count, hread, hdown.memory ▸ hreaches⟩

end Machine

end StackMachine
