import Mathlib.Tactic.Common
import StackMachine.Machine.Execute

/-!
# What an action may change

An action keeps what it did before it failed.  What a step has to undo is
therefore a statement about each action that the step is made of, and this
module makes it once for all of them.

## Main definitions

* `Machine.undone` — a machine whose registers and frame count are taken from
  another
* `Machine.Undoable` — a machine that comes from another by changes to these
  alone
* `Action.Confined` — an action that changes nothing else, whether or not it
  succeeds
* `Action.FailsUndoable` — an action that has changed nothing else when it fails

## Main statements

* `Action.bind_eq_ok`, `Action.bind_eq_error` — how a sequence succeeds, and how
  it fails
* `Action.Confined.bind`, `Action.FailsUndoable.bind` — both properties along a
  sequence
* `Action.forM_eq_error` — how a row of actions fails
* `Machine.confined_pop`, `Machine.confined_ret` and the like — the actions that
  write no memory

## Design notes

**Two properties, one of them for the last action only.**  A sequence may be
undone when it fails if every action in it but the last is confined: then no
write to memory has been made by the time of the last failure.
`Action.FailsUndoable.bind` is that argument, and no opcode needs another.
-/

namespace StackMachine

namespace Action

variable {ε α β : Type}

/-! ### Sequences -/

/-- A sequence on a machine: the second part starts from the machine that the
first one leaves.  All other facts about sequences come from this equation. -/
theorem bind_apply (action : Action ε α) (next : α → Action ε β) (m : Machine) :
    (action >>= next) m =
      match action m with
      | .ok a m' => next a m'
      | .error e m' => .error e m' := by
  show EStateM.bind action next m = _
  unfold EStateM.bind
  cases action m <;> rfl

/-- Where the first part succeeds, the sequence is its second part.  Proofs step
through an action with it, one part at a time. -/
theorem bind_of_ok {action : Action ε α} {m m' : Machine} {a : α}
    (h : action m = .ok a m') (next : α → Action ε β) :
    (action >>= next) m = next a m' := by
  rw [bind_apply, h]

/-- Where the first part fails, nothing else is done.  The machine that it
leaves is the one that the sequence leaves. -/
theorem bind_of_error {action : Action ε α} {m m' : Machine} {e : ε}
    (h : action m = .error e m') (next : α → Action ε β) :
    (action >>= next) m = .error e m' := by
  rw [bind_apply, h]

theorem get_apply (m : Machine) : (get : Action ε Machine) m = .ok m m := rfl

/-- A sequence succeeds by the success of both its parts.  So a run that has
succeeded can be taken apart without unfolding what it runs. -/
theorem bind_eq_ok {action : Action ε α} {next : α → Action ε β}
    {m m' : Machine} {b : β} :
    (action >>= next) m = .ok b m' ↔ ∃ a m₁, action m = .ok a m₁ ∧
      next a m₁ = .ok b m' := by
  rw [bind_apply]
  constructor
  · intro h
    cases hfirst : action m with
    | ok a m₁ => exact ⟨a, m₁, rfl, by rwa [hfirst] at h⟩
    | error e m₁ => rw [hfirst] at h; cases h
  · rintro ⟨a, m₁, hfirst, hnext⟩
    rwa [hfirst]

/-- A sequence fails in its first part or, behind it, in its second.  The two
cases leave different machines, which is why both are told apart. -/
theorem bind_eq_error {action : Action ε α} {next : α → Action ε β}
    {m m' : Machine} {e : ε} :
    (action >>= next) m = .error e m' ↔
      action m = .error e m' ∨ ∃ a m₁, action m = .ok a m₁ ∧
        next a m₁ = .error e m' := by
  rw [bind_apply]
  constructor
  · intro h
    cases hfirst : action m with
    | ok a m₁ => exact .inr ⟨a, m₁, rfl, by rwa [hfirst] at h⟩
    | error e₁ m₁ => rw [hfirst] at h; cases h; exact .inl rfl
  · rintro (hfirst | ⟨a, m₁, hfirst, hnext⟩)
    · rw [hfirst]
    · rwa [hfirst]

end Action

/-! ### Changes that can be undone -/

namespace Machine

/-- The machine with the registers and the frame count of another. -/
def undone (m before : Machine) : Machine :=
  { m with bank := before.bank, frameBytes := before.frameBytes }

/-- The second machine is the first up to its registers and its frame count. -/
def Undoable (before m : Machine) : Prop := m.undone before = before

theorem Undoable.refl (m : Machine) : Undoable m m := rfl

/-- What is left of two changes, one after the other, can be undone if
each of them can. -/
theorem Undoable.trans {m₁ m₂ m₃ : Machine} (h₁ : Undoable m₁ m₂)
    (h₂ : Undoable m₂ m₃) :
    Undoable m₁ m₃ := by
  calc m₃.undone m₁ = (m₃.undone m₂).undone m₁ := rfl
    _ = m₂.undone m₁ := by rw [h₂]
    _ = m₁ := h₁

/-- Registers and frame count may be set to anything, since a step that fails
puts both back.  Memory and the record of the run may not. -/
theorem undoable_of (m : Machine) (bank : Bank) (frameBytes : UInt16) :
    Undoable m { m with bank, frameBytes } := rfl

end Machine

namespace Action

open Machine (Undoable)

variable {ε α β : Type}

/-- An action that changes nothing but registers and the frame count. -/
structure Confined (action : Action ε α) : Prop where
  /-- A success changes nothing else. -/
  of_ok : ∀ {m m' : Machine} {a : α}, action m = .ok a m' → Undoable m m'
  /-- A failure changes nothing else. -/
  of_error : ∀ {m m' : Machine} {e : ε}, action m = .error e m' → Undoable m m'

/-- An action that, when it fails, has changed nothing but registers
and the frame count. -/
structure FailsUndoable (action : Action ε α) : Prop where
  /-- A failure has changed nothing else. -/
  of_error : ∀ {m m' : Machine} {e : ε}, action m = .error e m' → Undoable m m'

/-- Where an action ends says whether it is confined, so one case analysis of
its result is enough for success and failure. -/
theorem confined_of_result {action : Action ε α}
    (h : ∀ m, match action m with | .ok _ m' | .error _ m' => Undoable m m') :
    Confined action where
  of_ok {m m' a} hrun := by
    have hend := h m
    rwa [hrun] at hend
  of_error {m m' e} hrun := by
    have hend := h m
    rwa [hrun] at hend

/-- What never leaves its bounds does not do so where it fails. -/
theorem Confined.failsUndoable {action : Action ε α} (h : Confined action) :
    FailsUndoable action := ⟨h.of_error⟩

/-- Confined actions can be put in sequence.  Most of the actions of a step are
sequences, and are confined for no other reason. -/
theorem Confined.bind {action : Action ε α} {next : α → Action ε β}
    (h : Confined action) (hnext : ∀ a, Confined (next a)) :
    Confined (action >>= next) where
  of_ok hrun := by
    obtain ⟨a, m₁, h₁, h₂⟩ := bind_eq_ok.1 hrun
    exact (h.of_ok h₁).trans ((hnext a).of_ok h₂)
  of_error hrun := by
    rcases bind_eq_error.1 hrun with h₁ | ⟨a, m₁, h₁, h₂⟩
    · exact h.of_error h₁
    · exact (h.of_ok h₁).trans ((hnext a).of_error h₂)

/-- Confined actions may stand before any whose failures can be undone.  This is
the shape of every instruction that writes to memory last. -/
theorem FailsUndoable.bind {action : Action ε α} {next : α → Action ε β}
    (h : Confined action) (hnext : ∀ a, FailsUndoable (next a)) :
    FailsUndoable (action >>= next) where
  of_error hrun := by
    rcases bind_eq_error.1 hrun with h₁ | ⟨a, m₁, h₁, h₂⟩
    · exact h.of_error h₁
    · exact (h.of_ok h₁).trans ((hnext a).of_error h₂)

/-- An action that cannot fail may follow any whose failures can be undone,
whatever it does. -/
theorem FailsUndoable.bind_of_never_fails {action : Action ε α}
    {next : α → Action ε β} (h : FailsUndoable action)
    (hnext : ∀ a m, ∃ b m', next a m = .ok b m') :
    FailsUndoable (action >>= next) where
  of_error hrun := by
    rcases bind_eq_error.1 hrun with h₁ | ⟨a, m₁, -, h₂⟩
    · exact h.of_error h₁
    · obtain ⟨b, m₂, hok⟩ := hnext a m₁
      rw [hok] at h₂
      cases h₂

theorem confined_pure (a : α) : Confined (pure a : Action ε α) :=
  confined_of_result Undoable.refl

theorem confined_get : Confined (get : Action ε Machine) :=
  confined_of_result Undoable.refl

/-- A change of the machine is confined if it keeps within the bounds
on every machine. -/
theorem confined_modify {change : Machine → Machine}
    (h : ∀ m, Undoable m (change m)) :
    Confined (modify change : Action ε PUnit) := confined_of_result h

/-- A row of confined actions is confined, however long it is. -/
theorem confined_forM {γ : Type} {visit : γ → Action ε PUnit}
    (h : ∀ c, Confined (visit c)) (cs : List γ) : Confined (cs.forM visit) := by
  induction cs with
  | nil => exact confined_pure _
  | cons c cs ih => exact (h c).bind fun _ => ih

/-! ### Rows -/

/-- A row of actions fails by the first of them that does, behind the success of
those before it.  What the row leaves is what that one leaves. -/
theorem forM_eq_error {γ : Type} {visit : γ → Action ε PUnit} {cs : List γ}
    {m m' : Machine} {e : ε} :
    cs.forM visit m = .error e m' ↔
      ∃ before c after m₁, cs = before ++ c :: after ∧
        before.forM visit m = .ok ⟨⟩ m₁ ∧
        visit c m₁ = .error e m' := by
  induction cs generalizing m with
  | nil =>
    constructor
    · intro h
      cases h
    · rintro ⟨before, c, after, m₁, hsplit, -⟩
      exact absurd hsplit.symm
        (List.append_ne_nil_of_right_ne_nil _ (List.cons_ne_nil _ _))
  | cons c cs ih =>
    have hrow : (c :: cs).forM visit = visit c >>= fun _ => cs.forM visit := rfl
    constructor
    · intro h
      rw [hrow] at h
      rcases bind_eq_error.1 h with hfirst | ⟨_, m₁, hfirst, hrest⟩
      · exact ⟨[], c, cs, m, rfl, rfl, hfirst⟩
      · obtain ⟨before, d, after, m₂, rfl, hbefore, hd⟩ := ih.1 hrest
        exact ⟨c :: before, d, after, m₂, rfl,
          bind_eq_ok.2 ⟨_, m₁, hfirst, hbefore⟩, hd⟩
    · rintro ⟨before, d, after, m₁, hsplit, hbefore, hd⟩
      cases before with
      | nil =>
        obtain ⟨rfl, rfl⟩ := List.cons.inj hsplit
        cases hbefore
        exact bind_eq_error.2 (.inl hd)
      | cons b before =>
        obtain ⟨rfl, rfl⟩ := List.cons.inj hsplit
        obtain ⟨_, m₂, hfirst, hrest⟩ := bind_eq_ok.1 hbefore
        exact bind_eq_error.2
          (.inr ⟨_, m₂, hfirst, ih.2 ⟨before, d, after, m₁, rfl, hrest, hd⟩⟩)

end Action

/-! ### Actions that write no memory -/

namespace Machine

open StackMachine.Action

theorem readRegister_apply (r : Register) (m : Machine) :
    readRegister r m = .ok (m.register r) m := rfl

theorem writeRegister_apply (r : Register) (value : UInt16) (m : Machine) :
    writeRegister r value m = .ok () (m.setRegister r value) := rfl

theorem confined_readRegister (r : Register) : Confined (readRegister r) :=
  confined_get.bind fun _ => confined_pure _

theorem confined_writeRegister (r : Register) (value : UInt16) :
    Confined (writeRegister r value) :=
  confined_modify fun m => undoable_of m _ m.frameBytes

theorem confined_loadWord (address : UInt16) : Confined (loadWord address) := by
  apply confined_of_result
  intro m
  unfold loadWord
  cases m.memory.readWord address.toNat <;> exact .refl m

/-- To look for a register at a raw position may fail, but changes nothing. -/
theorem confined_registerAt (i : UInt8) : Confined (registerAt i) := by
  apply confined_of_result
  intro m
  unfold registerAt
  cases m.bank.readIndex i <;> exact .refl m

/-- A fetch moves the instruction pointer and reads memory.  That it has moved
when the read fails is undone with the registers. -/
theorem confined_fetchByte : Confined fetchByte := by
  apply confined_of_result
  intro m
  unfold fetchByte
  cases m.memory.readByte m.ip.toNat with
  | ok byte => exact undoable_of m _ m.frameBytes
  | error e => exact .refl m

theorem confined_fetchWord : Confined fetchWord := by
  apply confined_of_result
  intro m
  unfold fetchWord
  cases m.memory.readWord m.ip.toNat with
  | ok word => exact undoable_of m _ m.frameBytes
  | error e => exact .refl m

theorem confined_fetchRegister : Confined fetchRegister :=
  confined_fetchByte.bind fun _ => confined_pure _

/-- A pop moves the pointer and the count, and has moved them when it fails.
Neither is memory. -/
theorem confined_pop : Confined pop :=
  (confined_readRegister .sp).bind fun sp =>
    (confined_modify fun m =>
      undoable_of m (m.bank.set .sp (sp + 2)) (m.frameBytes - 2)).bind
      fun _ => confined_loadWord (sp + 2)

theorem confined_drop (n : Nat) : Confined (drop n) := by
  induction n with
  | zero => exact confined_pure _
  | succ n ih => exact confined_pop.bind fun _ => ih

/-- However it ends, a return has written no memory. -/
theorem confined_ret : Confined ret := by
  refine (confined_readRegister .fp).bind fun base => ?_
  refine (confined_writeRegister .sp base).bind fun _ => ?_
  refine confined_pop.bind fun frameSize => ?_
  refine (confined_modify fun m => undoable_of m m.bank frameSize).bind fun _ => ?_
  refine confined_pop.bind fun returnAddress => ?_
  refine (confined_writeRegister .ip returnAddress).bind fun _ => ?_
  refine (confined_forM (fun r => confined_pop.bind fun value => ?_) _).bind
    fun _ => ?_
  · exact confined_writeRegister r value
  · refine confined_pop.bind fun count => ?_
    exact (confined_drop _).bind fun _ =>
      confined_writeRegister .fp (base + frameSize)

end Machine

end StackMachine
