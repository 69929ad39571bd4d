import StackMachine.Proofs.Path

/-!
# Runs with a limit

A run is written as a loop: step, as long as the machine is running and its
count is below some ceiling.  The loop ends, it takes the steps that
`Machine.runFor` takes, runs with a limit can be put behind one another, and a
run until halt that comes to an end is a run with any limit that is large
enough.

## Main definitions

* `Machine.Loops` — how a loop ends that steps as long as a condition holds
* `Machine.ceiling`, `Machine.Below` — the condition of a run with a limit
* `Machine.counted` — the result of a loop, with the steps that it has taken

## Main statements

* `Machine.loops_below` — the loop of a run with a limit ends, and `runFor`
  gives its result
* `Machine.runFor_add` — a run with a limit in two parts
* `Machine.runFor_of_runUntilHalt` — a run until halt is a run with a large
  enough limit
* `Machine.bounded_run_iterates_step` — all of this, and how many steps there
  are

## Design notes

**The loop keeps no count of its own.**  It compares the count in the machine
with a ceiling, which is the sum of the count at the start and the limit, or the
largest count if the sum is larger. `Path.toNat_cycles` turns the comparison
into one of lengths: below the ceiling no step wraps the count around.

**A loop need not end.**  `Loops` relates a machine to the result with which the
loop ends, so that it ends is a statement about it and not part of its
definition.
-/

namespace StackMachine.Machine

/-- How a loop ends that takes a step as long as the machine satisfies a
condition. -/
inductive Loops (goes : Machine → Prop) :
    Machine → EStateM.Result Fault Machine Unit → Prop
  /-- The condition does not hold. -/
  | stop {m : Machine} (h : ¬ goes m) : Loops goes m (.ok () m)
  /-- The step fails. -/
  | fail {m m' : Machine} {e : Fault} (h : goes m) (hstep : step m = .error e m') :
      Loops goes m (.error e m')
  /-- The step succeeds and the loop goes on behind it. -/
  | next {m m₁ : Machine} {done : Step}
      {r : EStateM.Result Fault Machine Unit} (h : goes m)
      (hstep : step m = .ok done m₁) (hrest : Loops goes m₁ r) : Loops goes m r

/-- The count at which a run with a limit stops: the limit above the count of
the machine, or the largest count. -/
def ceiling (m : Machine) (limit : Nat) : UInt64 :=
  UInt64.ofNat (min (m.cycles.toNat + limit) 0xffffffffffffffff)

/-- The machine is running and its count is below the ceiling. -/
def Below (top : UInt64) (m : Machine) : Prop := m.state = .running ∧ m.cycles < top

/-- The result of a loop with the number of steps that its machine has
counted since the start. -/
def counted (start : Machine) :
    EStateM.Result Fault Machine Unit → EStateM.Result Fault Machine Nat
  | .ok () m => .ok (m.cycles - start.cycles).toNat m
  | .error e m => .error e m

variable {m m₁ m' : Machine} {path : List (Step × Machine)}
  {limit taken : Nat} {e : Fault}
variable {goes : Machine → Prop} {r : EStateM.Result Fault Machine Unit}

/-! ### Loops -/

/-- A loop has one result.  As the condition and the step are functions, there
is nothing at which two accounts of it could part. -/
theorem Loops.eq_of_loops {r' : EStateM.Result Fault Machine Unit}
    (h : Loops goes m r) (h' : Loops goes m r') : r = r' := by
  induction h with
  | stop hstop =>
    cases h' with
    | stop => rfl
    | fail hgoes => exact absurd hgoes hstop
    | next hgoes => exact absurd hgoes hstop
  | fail hgoes hstep =>
    cases h' with
    | stop hstop => exact absurd hgoes hstop
    | fail _ hstep' =>
      cases hstep.symm.trans hstep'
      rfl
    | next _ hstep' => cases hstep.symm.trans hstep'
  | next hgoes hstep _ ih =>
    cases h' with
    | stop hstop => exact absurd hgoes hstop
    | fail _ hstep' => cases hstep.symm.trans hstep'
    | next _ hstep' hrest' =>
      cases hstep.symm.trans hstep'
      exact ih hrest'

/-- A loop whose condition holds of every running machine on a path
goes on behind the path.  The condition is asked for only where a step
is still to come. -/
theorem Loops.of_path (h : Path m path m₁)
    (hgoes : ∀ earlier m₂, Path m earlier m₂ → earlier.length < path.length →
      m₂.state = .running → goes m₂)
    (hloops : Loops goes m₁ r) : Loops goes m r := by
  induction h with
  | nil m => exact hloops
  | cons hstep _ ih =>
    refine .next (hgoes [] _ (.nil _) (Nat.succ_pos _) (running_of_step hstep))
      hstep (ih ?_ hloops)
    intro earlier m₂ hearlier hlt
    exact hgoes _ m₂ (.cons hstep hearlier) (Nat.succ_lt_succ hlt)

/-- The ceiling is as far above the count as a run with the limit may go.  It is
cut off at the largest count, beyond which the sum would wrap around. -/
theorem toNat_ceiling (m : Machine) (limit : Nat) :
    (m.ceiling limit).toNat = m.cycles.toNat + min limit m.budget := by
  have hlt := m.cycles.toNat_lt
  rw [ceiling, UInt64.toNat_ofNat', budget, Nat.mod_eq_of_lt (by omega)]
  omega

/-- Before the last step that the limit allows, a running machine is below the
ceiling.  Here the count and the number of steps are the same thing. -/
theorem below_ceiling (h : Path m path m₁) (hlt : path.length < min limit m.budget)
    (hstate : m₁.state = .running) : Below (m.ceiling limit) m₁ := by
  refine ⟨hstate, UInt64.lt_iff_toNat_lt.2 ?_⟩
  rw [toNat_ceiling, h.toNat_cycles (by omega)]
  omega

/-- A row of steps that ends at the limit, or before it, ends the
loop.  At the limit the count has reached the ceiling; before it, the
machine is not running. -/
theorem Stops.loops (h : Stops (min limit m.budget) m path m') :
    Loops (Below (m.ceiling limit)) m (.ok () m') := by
  refine .of_path h.reaches ?_ (.stop ?_)
  · intro earlier m₂ hearlier hlt
    exact below_ceiling hearlier (Nat.lt_of_lt_of_le hlt h.length_le)
  · rintro ⟨hstate, hlt⟩
    have hle := h.length_le
    rw [UInt64.lt_iff_toNat_lt, toNat_ceiling, h.reaches.toNat_cycles (by omega),
      h.length_eq hstate] at hlt
    exact Nat.lt_irrefl _ hlt

/-- A row of steps that fails fails the loop, as the condition still held of the
machine before the last step. -/
theorem Fails.loops (h : Fails (min limit m.budget) m path m₁ e m') :
    Loops (Below (m.ceiling limit)) m (.error e m') := by
  refine .of_path h.reaches ?_
    (.fail (below_ceiling h.reaches h.length_lt h.running) h.failing)
  intro earlier m₂ hearlier hlt
  exact below_ceiling hearlier (Nat.lt_trans hlt h.length_lt)

/-! ### Runs with a limit -/

/-- A run with a limit takes at most as many steps as the count has room for. -/
theorem runFor_apply (limit : Nat) (m : Machine) :
    runFor limit m = runWithin (min limit m.budget) 0 m := rfl

/-- A run with a limit succeeds with the number of steps in a row that stops. -/
theorem runFor_eq_ok {count : Nat} :
    runFor limit m = .ok count m' ↔
      ∃ path, path.length = count ∧ Stops (min limit m.budget) m path m' := by
  rw [runFor_apply, runWithin_eq_ok]
  simp only [Nat.zero_add]

/-- It fails if a row of so many steps does. -/
theorem runFor_eq_error :
    runFor limit m = .error e m' ↔
      ∃ path m₁, Fails (min limit m.budget) m path m₁ e m' := by
  rw [runFor_apply, runWithin_eq_error]

/-- The steps of a path can be read off the count if it has room for them.  The
loop counts in no other way. -/
theorem Path.length_eq_count (h : Path m path m') (hroom : path.length ≤ m.budget) :
    (m'.cycles - m.cycles).toNat = path.length := by
  have hcount := h.toNat_cycles hroom
  rw [UInt64.toNat_sub_of_le _ _ (UInt64.le_iff_toNat_le.2 (by omega))]
  omega

/-- The loop of a run with a limit ends, and the run has its result.  So a run
is not only some row of steps but the one that the loop takes. -/
theorem loops_below (limit : Nat) (m : Machine) :
    (∃ r, Loops (Below (m.ceiling limit)) m r) ∧
      ∀ r, Loops (Below (m.ceiling limit)) m r → runFor limit m = counted m r := by
  rcases stops_or_fails (min limit m.budget) m with
    ⟨path, m', hstops⟩ | ⟨path, m₁, e, m', hfails⟩
  · refine ⟨⟨_, hstops.loops⟩, ?_⟩
    intro r hloops
    obtain rfl := hloops.eq_of_loops hstops.loops
    have hroom : path.length ≤ m.budget :=
      Nat.le_trans hstops.length_le (Nat.min_le_right _ _)
    rw [counted, hstops.reaches.length_eq_count hroom]
    exact runFor_eq_ok.2 ⟨path, rfl, hstops⟩
  · refine ⟨⟨_, hfails.loops⟩, ?_⟩
    intro r hloops
    obtain rfl := hloops.eq_of_loops hfails.loops
    exact runFor_eq_error.2 ⟨path, m₁, hfails⟩

/-- Steps up to a machine that is not running are as many as a run takes that
has room for them.  With less room it takes as many as there is room for. -/
theorem runFor_of_path (h : Path m path m') (hstate : m'.state ≠ .running)
    (limit : Nat) :
    ∃ m₁, runFor limit m = .ok (min (min limit m.budget) path.length) m₁ := by
  by_cases hle : path.length ≤ min limit m.budget
  · refine ⟨m', runFor_eq_ok.2
      ⟨path, ?_, h, hle, fun hrunning => absurd hrunning hstate⟩⟩
    exact (Nat.min_eq_right hle).symm
  · have hlength :
        (path.take (min limit m.budget)).length = min limit m.budget := by
      rw [List.length_take]
      omega
    rw [← List.take_append_drop (min limit m.budget) path, Path.append_iff] at h
    obtain ⟨m₁, hfirst, -⟩ := h
    refine ⟨m₁, runFor_eq_ok.2
      ⟨_, ?_, hfirst, Nat.le_of_eq hlength, fun _ => hlength⟩⟩
    rw [hlength]
    omega

/-- The steps taken before only add to the count.  With this the two parts of a
run are counted apart. -/
theorem runWithin_shift (limit taken : Nat) (m : Machine) :
    runWithin limit taken m =
      (do let count ← runWithin limit 0; return taken + count) m := by
  rcases stops_or_fails limit m with ⟨path, m', hstops⟩ | ⟨path, m₁, e, m', hfails⟩
  · rw [Action.bind_of_ok (runWithin_of_stops hstops),
      runWithin_of_stops hstops, Nat.zero_add]
    rfl
  · rw [Action.bind_of_error (runWithin_of_fails hfails), runWithin_of_fails hfails]

/-- A run can be taken in two parts. -/
theorem runWithin_add (a b : Nat) (m : Machine) :
    runWithin (a + b) 0 m =
      (do let first ← runWithin a 0; let second ← runWithin b 0
          return first + second) m := by
  rcases stops_or_fails a m with ⟨path, m₁, hstops⟩ | ⟨path, m₁, e, m', hfails⟩
  · rw [Action.bind_of_ok (runWithin_of_stops hstops), ← runWithin_shift]
    by_cases hstate : m₁.state = .running
    · rw [← hstops.length_eq hstate]
      exact runWithin_of_path hstops.reaches b 0
    · rw [runWithin_of_not_running hstate]
      exact runWithin_of_stops
        ⟨hstops.reaches, Nat.le_add_right_of_le hstops.length_le, fun h =>
          absurd h hstate⟩
  · rw [Action.bind_of_error (runWithin_of_fails hfails)]
    exact runWithin_of_fails
      ⟨hfails.reaches, Nat.lt_add_right b hfails.length_lt, hfails.running,
        hfails.failing⟩

/-- A run with a limit can be taken in two parts if the count has room
for both. Without room the first part would be cut short and the
second begin too early. -/
theorem runFor_add {a b : Nat} (hroom : a + b ≤ m.budget) :
    runFor (a + b) m =
      (do let first ← runFor a; let second ← runFor b; return first + second)
        m := by
  rw [runFor_apply, Nat.min_eq_left hroom, runWithin_add, Action.bind_apply,
    Action.bind_apply, runFor_apply, Nat.min_eq_left (by omega : a ≤ m.budget)]
  cases hfirst : runWithin a 0 m with
  | error e m' => rfl
  | ok first m₁ =>
    obtain ⟨path, -, hstops⟩ := runWithin_eq_ok.1 hfirst
    have hle := hstops.length_le
    have hbudget := hstops.reaches.budget_eq (by omega)
    simp only [Action.bind_apply, runFor_apply,
      Nat.min_eq_left (by omega : b ≤ m₁.budget)]

/-! ### Runs until halt -/

/-- A run until halt allows one step more than the count has room for, so it
never stops for want of steps. -/
theorem runUntilHalt_apply (m : Machine) :
    runUntilHalt m = runWithin (m.budget + 1) 0 m := rfl

/-- A run until halt that the count has room for is a run with any limit
that reaches as far. -/
theorem runFor_of_runUntilHalt {count : Nat} (h : runUntilHalt m = .ok count m')
    (hle : count ≤ limit) (hroom : limit ≤ m.budget) :
    runFor limit m = .ok count m' := by
  rw [runUntilHalt_apply, runWithin_eq_ok] at h
  obtain ⟨path, hcount, hstops⟩ := h
  refine runFor_eq_ok.2 ⟨path, by omega, hstops.reaches, by omega, ?_⟩
  intro hstate
  have hlength := hstops.length_eq hstate
  omega

/-- A run until halt that fails is a run with any limit that allows
the step that fails. -/
theorem runFor_of_runUntilHalt_error (h : runUntilHalt m = .error e m') :
    ∃ path m₁, Fails (m.budget + 1) m path m₁ e m' ∧
      ∀ limit ≤ m.budget, path.length < limit → runFor limit m = .error e m' := by
  rw [runUntilHalt_apply, runWithin_eq_error] at h
  obtain ⟨path, m₁, hfails⟩ := h
  refine ⟨path, m₁, hfails, ?_⟩
  intro limit hroom hlt
  refine runFor_eq_error.2 ⟨path, m₁, hfails.reaches, ?_, hfails.running,
    hfails.failing⟩
  rwa [Nat.min_eq_left hroom]

/-- A run until halt ends as the loop does that has no ceiling, if the count has
room for its steps. -/
theorem loops_of_runUntilHalt {count : Nat} (h : runUntilHalt m = .ok count m')
    (hroom : count ≤ m.budget) : Loops (·.state = .running) m (.ok () m') := by
  rw [runUntilHalt_apply, runWithin_eq_ok] at h
  obtain ⟨path, hcount, hstops⟩ := h
  refine .of_path hstops.reaches (fun _ _ _ _ hstate => hstate) (.stop ?_)
  intro hstate
  have hlength := hstops.length_eq hstate
  omega

/-- A run with a limit is iterated steps: its loop ends, as the run says; it
takes the steps up to its limit, up to the largest count or up to a machine
that is not running, whichever comes first, unless one of them fails; no step
wraps the count around; it can be taken in two parts; and a run until halt
that comes to an end is a run with any limit that the count has room for and
that is large enough. -/
theorem bounded_run_iterates_step (m : Machine) :
    (∀ limit, (∃ r, Loops (Below (m.ceiling limit)) m r) ∧
      ∀ r, Loops (Below (m.ceiling limit)) m r → runFor limit m = counted m r) ∧
    (∀ limit count m', runFor limit m = .ok count m' ↔
      ∃ path, path.length = count ∧ Stops (min limit m.budget) m path m') ∧
    (∀ limit e m', runFor limit m = .error e m' ↔
      ∃ path m₁, Fails (min limit m.budget) m path m₁ e m') ∧
    (∀ limit path m', Path m path m' → m'.state ≠ .running →
      ∃ m₁, runFor limit m = .ok (min (min limit m.budget) path.length) m₁) ∧
    (∀ path m', Path m path m' → path.length ≤ m.budget →
      m'.cycles.toNat = m.cycles.toNat + path.length) ∧
    (∀ a b, a + b ≤ m.budget → runFor (a + b) m =
      (do let first ← runFor a; let second ← runFor b; return first + second) m) ∧
    (∀ count m', runUntilHalt m = .ok count m' →
      (count ≤ m.budget → Loops (·.state = .running) m (.ok () m')) ∧
        ∀ limit ≤ m.budget, count ≤ limit → runFor limit m = .ok count m') ∧
    (∀ e m', runUntilHalt m = .error e m' →
      ∃ path m₁, Fails (m.budget + 1) m path m₁ e m' ∧
        Loops (·.state = .running) m (.error e m') ∧
        ∀ limit ≤ m.budget, path.length < limit →
          runFor limit m = .error e m') := by
  refine ⟨?loop, fun _ _ _ => runFor_eq_ok, fun _ _ _ => runFor_eq_error,
    ?steps, ?count, ?parts, ?untilHalt, ?untilFailure⟩
  case loop =>
    intro limit
    exact loops_below limit m
  case steps =>
    intro limit path m' h hstate
    exact runFor_of_path h hstate limit
  case count =>
    intro path m' h hroom
    exact h.toNat_cycles hroom
  case parts =>
    intro a b hroom
    exact runFor_add hroom
  case untilHalt =>
    intro count m' h
    exact ⟨loops_of_runUntilHalt h, fun limit hroom hle =>
      runFor_of_runUntilHalt h hle hroom⟩
  case untilFailure =>
    intro e m' h
    obtain ⟨path, m₁, hfails, hruns⟩ := runFor_of_runUntilHalt_error h
    have hloops : Loops (·.state = .running) m (.error e m') :=
      .of_path hfails.reaches (fun _ _ _ _ hstate => hstate)
        (.fail hfails.running hfails.failing)
    exact ⟨path, m₁, hfails, hloops, hruns⟩

-- One step before the largest count, a run with room for five takes one.
example :
    let m : Machine :=
      { fresh (Memory.zeroed 32) .permissive with cycles := 0xfffffffffffffffe }
    runFor 5 m =
      .ok 1 { m.setRegister .ip 1 with cycles := 0xffffffffffffffff } := by
  cbv

end StackMachine.Machine
