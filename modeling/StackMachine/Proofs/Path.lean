import StackMachine.Machine.Run
import StackMachine.Proofs.Record

/-!
# Steps in a row

A run is steps in a row, and what it gives back says how the row ends: with as
many steps as it may take, with a machine that is no longer running, or with a
step that fails.

## Main definitions

* `Machine.Path` — steps that all succeed, with the machine behind each
* `Machine.Stops`, `Machine.Fails` — how a row of at most so many steps ends

## Main statements

* `Machine.Path.eq_of_length_eq` — a machine and a number of steps determine the
  path
* `Machine.Path.toNat_cycles` — every step on a path is counted
* `Machine.stops_or_fails` — a row of at most so many steps ends in one of the
  two ways
* `Machine.runWithin_eq_ok`, `Machine.runWithin_eq_error` — a run ends as its
  row of steps does

## Design notes

**A path has no failures.**  A failed step leaves a machine that takes no other,
so it can only stand behind a path, and there it says whether the run fails.

**A path keeps the machines in between.**  The step determines them, but
statements about every point of a run are shorter when they can be read off the
path.
-/

namespace StackMachine.Machine

/-- Steps in a row that all succeed: what each of them did, with the
machine behind it. -/
inductive Path : Machine → List (Step × Machine) → Machine → Prop
  /-- No step is taken. -/
  | nil (m : Machine) : Path m [] m
  /-- A step is taken before the others. -/
  | cons {m m₁ m' : Machine} {done : Step} {rest : List (Step × Machine)}
      (hstep : step m = .ok done m₁) (hrest : Path m₁ rest m') :
        Path m ((done, m₁) :: rest) m'

variable {m m₁ m' : Machine} {path rest : List (Step × Machine)}

theorem count_succ (count : UInt64) (steps : Nat) :
    count + 1 + UInt64.ofNat steps = count + UInt64.ofNat (steps + 1) := by
  rw [Nat.add_comm, UInt64.ofNat_add, ← UInt64.add_assoc]
  rfl

namespace Path

theorem append (h : Path m path m₁) (hrest : Path m₁ rest m') :
    Path m (path ++ rest) m' := by
  induction h with
  | nil m => exact hrest
  | cons hstep _ ih => exact .cons hstep (ih hrest)

/-- A path can be divided between any two of its steps, so the machine at every
point of a run is on a path from the start. -/
theorem append_iff :
    Path m (path ++ rest) m' ↔ ∃ m₁, Path m path m₁ ∧ Path m₁ rest m' := by
  constructor
  · intro h
    induction path generalizing m with
    | nil => exact ⟨m, .nil m, h⟩
    | cons taken path ih =>
      cases h with
      | cons hstep hrest =>
        obtain ⟨m₁, hfirst, hsecond⟩ := ih hrest
        exact ⟨m₁, .cons hstep hfirst, hsecond⟩
  · rintro ⟨m₁, hfirst, hsecond⟩
    exact hfirst.append hsecond

/-- The steps of a path are determined by their number.  Two descriptions of one
run are compared by this. -/
theorem eq_of_length_eq {other : List (Step × Machine)} {m₂ : Machine}
    (h : Path m path m₁) (hother : Path m other m₂)
    (hlength : path.length = other.length) :
    path = other ∧ m₁ = m₂ := by
  induction h generalizing other with
  | nil m =>
    obtain rfl := List.length_eq_zero_iff.1 hlength.symm
    cases hother
    exact ⟨rfl, rfl⟩
  | cons hstep _ ih =>
    cases hother with
    | nil => cases hlength
    | cons hstep' hrest' =>
      cases hstep.symm.trans hstep'
      obtain ⟨rfl, rfl⟩ := ih hrest' (Nat.succ.inj hlength)
      exact ⟨rfl, rfl⟩

/-- No step changes the policy. -/
theorem policy_eq (h : Path m path m') : m'.policy = m.policy := by
  induction h with
  | nil m => rfl
  | cons hstep _ ih => exact ih.trans (advanced_of_step hstep).policy

/-- Every step is counted, modulo the width of the count. -/
theorem cycles_eq (h : Path m path m') :
    m'.cycles = m.cycles + UInt64.ofNat path.length := by
  induction h with
  | nil m => exact (UInt64.add_zero m.cycles).symm
  | cons hstep _ ih =>
    rw [ih, (advanced_of_step hstep).cycles, count_succ, List.length_cons]

/-- Steps for which the count has room do not wrap it around.  Then the count
tells how many there were. -/
theorem toNat_cycles (h : Path m path m') (hroom : path.length ≤ m.budget) :
    m'.cycles.toNat = m.cycles.toNat + path.length := by
  have hlt := m.cycles.toNat_lt
  rw [budget] at hroom
  rw [h.cycles_eq, UInt64.toNat_add, UInt64.toNat_ofNat', Nat.add_mod_mod]
  exact Nat.mod_eq_of_lt (by omega)

/-- The room that is left in the count shrinks by the steps that are taken. -/
theorem budget_eq (h : Path m path m') (hroom : path.length ≤ m.budget) :
    m'.budget = m.budget - path.length := by
  rw [budget, h.toNat_cycles hroom, budget]
  omega

end Path

/-! ### How a row of steps ends -/

/-- A row of at most `limit` steps ends without a failure: the limit is reached,
or the machine is no longer running. -/
structure Stops (limit : Nat) (m : Machine) (path : List (Step × Machine))
    (m' : Machine) :
    Prop where
  /-- The steps that are taken. -/
  reaches : Path m path m'
  /-- There are no more of them than the limit. -/
  length_le : path.length ≤ limit
  /-- There are fewer of them only if the machine cannot go on. -/
  length_eq : m'.state = .running → path.length = limit

/-- A row of at most `limit` steps ends with a failure: the machine behind a
path takes a step that fails. -/
structure Fails (limit : Nat) (m : Machine)
    (path : List (Step × Machine)) (m₁ : Machine)
    (e : Fault) (m' : Machine) : Prop where
  /-- The steps that are taken before. -/
  reaches : Path m path m₁
  /-- The limit allows another step. -/
  length_lt : path.length < limit
  /-- The machine is running. -/
  running : m₁.state = .running
  /-- Its step fails. -/
  failing : step m₁ = .error e m'

variable {limit taken : Nat} {e : Fault}

/-- A step may be put in front of a row that stops, with one more allowed. -/
theorem Stops.cons {done : Step} (hstep : step m = .ok done m₁)
    (h : Stops limit m₁ path m') :
    Stops (limit + 1) m ((done, m₁) :: path) m' where
  reaches := .cons hstep h.reaches
  length_le := Nat.succ_le_succ h.length_le
  length_eq hstate := congrArg (· + 1) (h.length_eq hstate)

theorem Fails.cons {m₂ : Machine} {done : Step} (hstep : step m = .ok done m₁)
    (h : Fails limit m₁ path m₂ e m') :
    Fails (limit + 1) m ((done, m₁) :: path) m₂ e m' where
  reaches := .cons hstep h.reaches
  length_lt := Nat.succ_lt_succ h.length_lt
  running := h.running
  failing := h.failing

/-- The first step may be taken off a row that stops, with one less allowed. The
induction on a trace goes along these two. -/
theorem Stops.of_cons {done : Step} (h : Stops limit m ((done, m₁) :: path) m') :
    ∃ rest, limit = rest + 1 ∧ step m = .ok done m₁ ∧ Stops rest m₁ path m' := by
  obtain ⟨rest, rfl⟩ :=
    Nat.exists_eq_succ_of_ne_zero (Nat.ne_zero_of_lt h.length_le)
  cases h.reaches with
  | cons hstep hpath =>
    refine ⟨rest, rfl, hstep, hpath, Nat.le_of_succ_le_succ h.length_le,
      fun hstate => ?_⟩
    exact Nat.succ.inj (h.length_eq hstate)

/-- The first step may be taken off a row that fails. -/
theorem Fails.of_cons {m₂ : Machine} {done : Step}
    (h : Fails limit m ((done, m₁) :: path) m₂ e m') :
    ∃ rest, limit = rest + 1 ∧ step m = .ok done m₁ ∧
      Fails rest m₁ path m₂ e m' := by
  obtain ⟨rest, rfl⟩ :=
    Nat.exists_eq_succ_of_ne_zero (Nat.ne_zero_of_lt h.length_lt)
  cases h.reaches with
  | cons hstep hpath =>
    exact ⟨rest, rfl, hstep, hpath, Nat.lt_of_succ_lt_succ h.length_lt,
      h.running, h.failing⟩

/-- A row of steps with a limit comes to an end.  There is no third way, so what
is said of both ends is said of every run. -/
theorem stops_or_fails (limit : Nat) (m : Machine) :
    (∃ path m', Stops limit m path m') ∨
      ∃ path m₁ e m', Fails limit m path m₁ e m' := by
  induction limit generalizing m with
  | zero => exact .inl ⟨[], m, .nil m, Nat.le_refl 0, fun _ => rfl⟩
  | succ limit ih =>
    by_cases hstate : m.state = .running
    · cases hstep : step m with
      | error e m' =>
        exact .inr ⟨[], m, e, m', .nil m, Nat.succ_pos limit, hstate, hstep⟩
      | ok done m₁ =>
        rcases ih m₁ with ⟨path, m', hstops⟩ | ⟨path, m₂, e, m', hfails⟩
        · exact .inl ⟨_, m', hstops.cons hstep⟩
        · exact .inr ⟨_, m₂, e, m', hfails.cons hstep⟩
    · exact .inl ⟨[], m, .nil m, Nat.zero_le _, fun h => absurd h hstate⟩

/-! ### Runs -/

/-- A run looks at the state before every step, and a machine that is
not running ends it. -/
theorem runWithin_succ (limit taken : Nat) (m : Machine) :
    runWithin (limit + 1) taken m =
      if m.state = .running then
        match step m with
        | .ok _ m' => runWithin limit (taken + 1) m'
        | .error e m' => .error e m'
      else .ok taken m := by
  rw [runWithin, Action.bind_of_ok (Action.get_apply m)]
  split
  · cases hstep : step m <;> simp only [Action.bind_apply, hstep]
  · rfl

theorem runWithin_of_not_running (h : m.state ≠ .running) :
    runWithin limit taken m = .ok taken m := by
  cases limit with
  | zero => rfl
  | succ limit => rw [runWithin_succ, if_neg h]

/-- A run goes on behind the steps that it has taken, with as many fewer allowed
and as many more counted. -/
theorem runWithin_of_path (h : Path m path m₁) (limit taken : Nat) :
    runWithin (path.length + limit) taken m =
      runWithin limit (taken + path.length) m₁ := by
  induction h generalizing taken with
  | nil m => rw [List.length_nil, Nat.zero_add, Nat.add_zero]
  | cons hstep _ ih =>
    rw [List.length_cons, Nat.add_right_comm, runWithin_succ,
      if_pos (running_of_step hstep), hstep]
    simp only
    rw [ih, Nat.add_right_comm, Nat.add_assoc taken]

/-- A row of steps that stops is what a run takes, and the run counts them. -/
theorem runWithin_of_stops (h : Stops limit m path m') :
    runWithin limit taken m = .ok (taken + path.length) m' := by
  obtain ⟨more, rfl⟩ := Nat.exists_eq_add_of_le h.length_le
  rw [runWithin_of_path h.reaches]
  by_cases hstate : m'.state = .running
  · have hmore : more = 0 := by
      have hlength := h.length_eq hstate
      omega
    rw [hmore]
    rfl
  · exact runWithin_of_not_running hstate

/-- A row of steps that fails makes the run fail, with the complaint of the step. -/
theorem runWithin_of_fails (h : Fails limit m path m₁ e m') :
    runWithin limit taken m = .error e m' := by
  obtain ⟨more, rfl⟩ := Nat.exists_eq_add_of_lt h.length_lt
  rw [Nat.add_assoc, runWithin_of_path h.reaches, runWithin_succ,
    if_pos h.running, h.failing]

/-- A run that succeeds has taken the steps that it has counted. -/
theorem runWithin_eq_ok {count : Nat} :
    runWithin limit taken m = .ok count m' ↔
      ∃ path, taken + path.length = count ∧ Stops limit m path m' := by
  constructor
  · intro h
    rcases stops_or_fails limit m with
      ⟨path, m₁, hstops⟩ | ⟨path, m₁, e, m₂, hfails⟩
    · rw [runWithin_of_stops hstops] at h
      cases h
      exact ⟨path, rfl, hstops⟩
    · rw [runWithin_of_fails hfails] at h
      cases h
  · rintro ⟨path, rfl, hstops⟩
    exact runWithin_of_stops hstops

/-- A run that fails has taken steps up to the one that fails. -/
theorem runWithin_eq_error :
    runWithin limit taken m = .error e m' ↔
      ∃ path m₁, Fails limit m path m₁ e m' := by
  constructor
  · intro h
    rcases stops_or_fails limit m with
      ⟨path, m₁, hstops⟩ | ⟨path, m₁, e', m₂, hfails⟩
    · rw [runWithin_of_stops hstops] at h
      cases h
    · rw [runWithin_of_fails hfails] at h
      cases h
      exact ⟨path, m₁, hfails⟩
  · rintro ⟨path, m₁, hfails⟩
    exact runWithin_of_fails hfails

end StackMachine.Machine
