import StackMachine.CommandLine.Arguments

/-!
# Settings from accepted arguments

The settings of a command are put together option by option.  What no option
breaks therefore holds of the settings of every command that the arguments of
the program may give, however these are written; and numbers among them fit the
width that they were read for.

## Main definitions

* `CommandLine.Kept` — a property of settings that holds at first and that no
  option breaks

## Main statements

* `Numeral.le_of_read` — a number that was read is at most the largest that it
  may be
* `CommandLine.Kept.of_parse` — the settings of an accepted command have every
  property that is kept
* `CommandLine.numbers_fit` — the numbers among the settings fit sixty-four bits

## Design notes

**Reading arguments has one way to change settings,** which is
`Progress.commit`.  Options come to it by their long names, by their letters or
later, when a value that was put off is settled; each of these ways has one
lemma, and none looks at what the property is.
-/

namespace StackMachine

/-- A sequence of computations that may fail gives a value through both its
parts.  Whatever is read from arguments or files is taken apart by this. -/
theorem except_bind_eq_ok {ε α β : Type} {first : Except ε α}
    {next : α → Except ε β} {b : β} :
    (first >>= next) = .ok b ↔ ∃ a, first = .ok a ∧ next a = .ok b := by
  constructor
  · intro h
    cases first with
    | error e => cases h
    | ok a => exact ⟨a, rfl, h⟩
  · rintro ⟨a, rfl, hnext⟩
    exact hnext

namespace Numeral

/-- The bound is tested at every digit, so it holds of the number in the end. -/
theorem le_of_accumulate {base largest value n : Nat} {digits : List Char}
    (h : accumulate base largest value digits = .ok n) (hvalue : value ≤ largest) :
    n ≤ largest := by
  induction digits generalizing value with
  | nil =>
    cases h
    exact hvalue
  | cons c rest ih =>
    rw [accumulate] at h
    split at h
    · cases h
    · split at h
      · next hle => exact ih h hle
      · cases h

/-- A number that was read is at most the largest that it may be. -/
theorem le_of_read {base largest n : Nat} {text : List Char}
    (h : read base largest text = .ok n) :
    n ≤ largest := by
  unfold read at h
  split at h
  · cases h
  · cases h
  · exact le_of_accumulate h (Nat.zero_le largest)
  · exact le_of_accumulate h (Nat.zero_le largest)

end Numeral

namespace CommandLine

/-- A property of settings that holds at first and that no option breaks. -/
structure Kept (P : Settings → Prop) : Prop where
  /-- It holds of the settings without any option. -/
  empty : P {}
  /-- It holds of the settings with one more option. -/
  apply : ∀ {s s' : Settings} {setting : Setting} {text : String}, P s →
    s.apply setting text = .ok s' → P s'

namespace Kept

variable {P : Settings → Prop} {p p' : Progress} {sub : Subcommand}
  {setting : Setting}
variable {text name image : String} {s : Settings}

/-- A value that is committed is one that its option accepts, and a property
that is kept holds behind it. -/
theorem of_commit (hkept : Kept P) (h : p.commit setting text = .ok p')
    (hp : P p.settings) :
    P p'.settings := by
  unfold Progress.commit at h
  split at h
  · cases h
  · next settings happly =>
    split at h <;> cases h
    exact hkept.apply hp happly

theorem of_settle (hkept : Kept P) (h : p.settle = .ok p') (hp : P p.settings) :
    P p'.settings := by
  unfold Progress.settle at h
  split at h
  · cases h
    exact hp
  · cases h
  · exact hkept.of_commit h hp

theorem of_plain (hkept : Kept P) (h : p.plain sub text = .ok p')
    (hp : P p.settings) :
    P p'.settings := by
  unfold Progress.plain at h
  split at h
  · obtain ⟨p₁, hsettle, hlast⟩ := except_bind_eq_ok.1 h
    have hp₁ := hkept.of_settle hsettle hp
    cases hlast
    exact hp₁
  · cases h

theorem of_value (hkept : Kept P) (h : p.value sub text = .ok p')
    (hp : P p.settings) :
    P p'.settings := by
  unfold Progress.value at h
  split at h
  · cases h
    exact hp
  · exact hkept.of_plain h hp

theorem of_longOption (hkept : Kept P) {value : Option String}
    (h : p.longOption sub name value = .ok p') (hp : P p.settings) :
    P p'.settings := by
  unfold Progress.longOption at h
  split at h
  · cases h
  · split at h
    · obtain ⟨p₁, hsettle, hlast⟩ := except_bind_eq_ok.1 h
      have hp₁ := hkept.of_settle hsettle hp
      cases value with
      | some text => exact hkept.of_commit hlast hp₁
      | none =>
        cases hlast
        exact hp₁
    · split at h
      · cases h
      · obtain ⟨p₁, hsettle, hlast⟩ := except_bind_eq_ok.1 h
        exact hkept.of_commit hlast (hkept.of_settle hsettle hp)

theorem of_letters (hkept : Kept P) {chars : List Char}
    (h : Progress.letters sub chars p = .ok p') (hp : P p.settings) :
    P p'.settings := by
  induction chars generalizing p with
  | nil =>
    cases h
    exact hp
  | cons c rest ih =>
    rw [Progress.letters] at h
    split at h
    · cases h
    · obtain ⟨p₁, hsettle, hlast⟩ := except_bind_eq_ok.1 h
      have hp₁ := hkept.of_settle hsettle hp
      split at hlast
      · split at hlast
        · cases hlast
          exact hp₁
        · exact hkept.of_commit hlast hp₁
        · exact hkept.of_commit hlast hp₁
      · obtain ⟨p₂, hcommit, hlast⟩ := except_bind_eq_ok.1 hlast
        exact ih hlast (hkept.of_commit hcommit hp₁)

theorem of_argument (hkept : Kept P) (h : Progress.argument sub p text = .ok p')
    (hp : P p.settings) : P p'.settings := by
  unfold Progress.argument at h
  split at h
  · exact hkept.of_plain h hp
  · split at h
    · cases h
      exact hp
    · split at h
      · exact hkept.of_longOption h hp
      · exact hkept.of_longOption h hp
    · exact hkept.of_letters h hp
    · exact hkept.of_value h hp

/-- A property of settings that one argument keeps is kept by all of them in a
row. -/
theorem of_arguments (hkept : Kept P) {arguments : List String}
    (h : arguments.foldlM (Progress.argument sub) p = .ok p') (hp : P p.settings) :
    P p'.settings := by
  induction arguments generalizing p with
  | nil =>
    cases h
    exact hp
  | cons text arguments ih =>
    rw [List.foldlM_cons] at h
    obtain ⟨p₁, hfirst, hrest⟩ := except_bind_eq_ok.1 h
    exact ih hrest (hkept.of_argument hfirst hp)

theorem of_finish (hkept : Kept P) (h : p.finish sub = .ok (.run image s))
    (hp : P p.settings) :
    P s := by
  obtain ⟨p₁, hsettle, hlast⟩ := except_bind_eq_ok.1 h
  have hp₁ := hkept.of_settle hsettle hp
  split at hlast <;> cases hlast
  exact hp₁

theorem of_parseSubcommand (hkept : Kept P) {arguments : List String}
    (h : parseSubcommand sub arguments = .ok (.run image s)) : P s := by
  unfold parseSubcommand at h
  split at h
  · next command hread =>
    cases h
    obtain ⟨p, harguments, hfinish⟩ := except_bind_eq_ok.1 hread
    exact hkept.of_finish hfinish (hkept.of_arguments harguments hkept.empty)
  · cases h
  · cases h

/-- The settings of an accepted command have every property that is kept.
So a property is proved of an option once and not along every way an
argument can be read. -/
theorem of_parse (hkept : Kept P) {arguments : List String}
    (h : parse arguments = .ok (.run image s)) : P s := by
  unfold parse at h
  split at h
  case h_8 =>
    split at h
    · cases h
    · cases h
    · cases h
    · split at h
      · exact hkept.of_parseSubcommand h
      · cases h
  case h_7 => split at h <;> cases h
  all_goals cases h

end Kept

/-- The numbers among settings fit sixty-four bits. -/
def NumbersFit (s : Settings) : Prop :=
  s.maxSteps ≤ 0xffffffffffffffff ∧ ∀ size ∈ s.memorySize, size ≤ 0xffffffffffffffff

/-- Each option that takes a number reads it with the bound of its type. -/
theorem kept_numbersFit : Kept NumbersFit where
  empty := ⟨by decide, fun _ h => by cases h⟩
  apply {s s' setting text} hs h := by
    unfold Settings.apply at h
    split at h
    · cases h
    · cases setting with
      | maxSteps =>
        simp only [Settings.put] at h
        split at h <;> cases h
        next hread => exact ⟨Numeral.le_of_read hread, hs.2⟩
      | memorySize =>
        simp only [Settings.put] at h
        split at h <;> cases h
        next hread =>
        refine ⟨hs.1, fun size hsize => ?_⟩
        cases hsize
        exact Numeral.le_of_read hread
      | origin =>
        simp only [Settings.put] at h
        split at h <;> cases h
        exact hs
      | trace | config | permissive | preset | json | help =>
        cases h
        exact hs

/-- The numbers among the settings of an accepted command fit sixty-four bits. A
run relies on this for its limit of steps. -/
theorem numbers_fit {arguments : List String} {image : String} {s : Settings}
    (h : parse arguments = .ok (.run image s)) :
    NumbersFit s := kept_numbersFit.of_parse h

end CommandLine

end StackMachine
