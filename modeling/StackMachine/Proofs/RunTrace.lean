import StackMachine.CommandLine.Run
import StackMachine.Proofs.CodeListing
import StackMachine.Proofs.Path

/-!
# The trace of a row of steps

A trace records the steps of a run and then the one that fails, if one does.
Its rows are those of the path that the run takes, and the lines that are shown
for them are one for each step.

## Main definitions

* `Machine.rowOf`, `Machine.pathRows` — the records of one step and of a path
* `CommandLine.stepLine`, `CommandLine.pathLines` — the lines that show them
* `CommandLine.linesText` — lines with their ends

## Main statements

* `Machine.trace_of_stops`, `Machine.trace_of_fails` — the trace of a run,
  whichever way it ends
* `CommandLine.traceLines_pathRows` — what is shown of a trace
* `CommandLine.newline_notMem_stepLine` — a line is one line

## Design notes

**A trace tries a step before it looks at the state.**  So the machine has to be
running at first; from then on the trace goes on exactly where a run does.
-/

namespace StackMachine

namespace Machine

/-- The record of a step with its outcome and the machine after it. -/
def rowOf (m : Machine) (outcome : Except Fault Step) (m' : Machine) : TraceRow :=
  ⟨m.ip, Listing.atAddress m.memory m.ip, outcome, m'.acc, m'.sp,
    m'.fp, m'.frameBytes⟩

/-- The records of the steps of a path. -/
def pathRows : Machine → List (Step × Machine) → List TraceRow
  | _, [] => []
  | m, (done, m₁) :: path => rowOf m (.ok done) m₁ :: pathRows m₁ path

variable {m m₁ m' : Machine} {path : List (Step × Machine)}
  {limit : Nat} {e : Fault}

/-- A step that succeeds leaves its row, with the machine in front of it
and the one behind. -/
theorem traceStep_of_ok {done : Step} (h : step m = .ok done m') :
    traceStep m = (rowOf m (.ok done) m', m') := by
  unfold traceStep
  rw [h]
  rfl

/-- A step that fails leaves a row as well, though it is not on the path. -/
theorem traceStep_of_error (h : step m = .error e m') :
    traceStep m = (rowOf m (.error e) m', m') := by
  unfold traceStep
  rw [h]
  rfl

/-- A trace that has begun with some rows goes on with those of the path.  The
rows in front are arbitrary, as the induction is on the path. -/
theorem traceWithin_of_stops (hstate : m.state = .running)
    (h : Stops limit m path m') (rows : Array TraceRow) :
    traceWithin limit rows m = (rows ++ (pathRows m path).toArray, m') := by
  induction path generalizing m limit rows with
  | nil =>
    cases h.reaches
    obtain rfl : 0 = limit := h.length_eq hstate
    rfl
  | cons taken path ih =>
    obtain ⟨done, m₁⟩ := taken
    obtain ⟨limit, rfl, hstep, hrest⟩ := h.of_cons
    rw [traceWithin, traceStep_of_ok hstep]
    simp only
    by_cases hnext : m₁.state = .running
    · rw [if_pos hnext, ih hnext hrest, pathRows, List.toArray_cons,
        Array.push_eq_append, Array.append_assoc]
    · -- The machine takes no other step, so the path ends here.
      rw [if_neg hnext]
      cases hrest.reaches with
      | nil => rfl
      | cons hstep => exact absurd (running_of_step hstep) hnext

/-- Where a step fails, its row stands behind those of the path and is the last. -/
theorem traceWithin_of_fails (h : Fails limit m path m₁ e m')
    (rows : Array TraceRow) :
    traceWithin limit rows m =
      (rows ++ (pathRows m path ++ [rowOf m₁ (.error e) m']).toArray, m') := by
  induction path generalizing m limit rows with
  | nil =>
    cases h.reaches
    obtain ⟨limit, rfl⟩ :=
      Nat.exists_eq_succ_of_ne_zero (Nat.ne_zero_of_lt h.length_lt)
    have hfaulted : m'.state ≠ .running := by
      rw [step_of_error h.running h.failing]
      exact fun hstate => by cases hstate
    rw [traceWithin, traceStep_of_error h.failing]
    exact if_neg hfaulted
  | cons taken path ih =>
    obtain ⟨done, m₂⟩ := taken
    obtain ⟨limit, rfl, hstep, hrest⟩ := h.of_cons
    have hnext : m₂.state = .running := by
      cases hrest.reaches with
      | nil => exact hrest.running
      | cons hstep => exact running_of_step hstep
    rw [traceWithin, traceStep_of_ok hstep]
    simp only
    rw [if_pos hnext, ih hrest, pathRows, List.cons_append, List.toArray_cons,
      Array.push_eq_append, Array.append_assoc]

/-- The trace of a run without a failure has a row for each step of the path,
and none for a halt that was there before. -/
theorem trace_of_stops (hstate : m.state = .running) (h : Stops limit m path m') :
    trace limit m = (pathRows m path, m') := by
  rw [trace, traceWithin_of_stops hstate h]
  simp only [Array.empty_append]

/-- The trace of a run that fails has one record more than the path has steps. -/
theorem trace_of_fails (h : Fails limit m path m₁ e m') :
    trace limit m = (pathRows m path ++ [rowOf m₁ (.error e) m'], m') := by
  rw [trace, traceWithin_of_fails h]
  simp only [Array.empty_append]

/-- There are as many rows as steps, so a trace also tells how many
steps were taken. -/
theorem length_pathRows (m : Machine) (path : List (Step × Machine)) :
    (pathRows m path).length = path.length := by
  induction path generalizing m with
  | nil => rfl
  | cons taken path ih => exact congrArg (· + 1) (ih taken.2)

/-- No step of a path has failed, so a failure can only be in a row behind it. -/
theorem ok_of_mem_pathRows {row : TraceRow} (h : row ∈ pathRows m path) :
    ∃ done, row.outcome = .ok done := by
  induction path generalizing m with
  | nil => cases h
  | cons taken path ih =>
    rcases List.mem_cons.1 h with rfl | hmem
    · exact ⟨taken.1, rfl⟩
    · exact ih hmem

end Machine

namespace CommandLine

open StackMachine.Machine (rowOf pathRows)

/-- The text of the item at which a machine is about to take a step. -/
def itemShown (m : Machine) : String :=
  match Listing.atAddress m.memory m.ip with
  | .ok (text, _) => text
  | .error _ => "??"

/-- What is said about a step apart from the machine. -/
def stepNote : Step → String
  | .executed _ => ""
  | .skipped _ => "  (skipped)"

/-- The line that shows a step from one machine to another. -/
def stepLine (m : Machine) (done : Step) (m' : Machine) : String :=
  Hex.word m.ip ++ ": " ++ Listing.column (itemShown m) ++
    " ACC=" ++ Hex.word m'.acc ++ " SP=" ++ Hex.word m'.sp ++
    " FP=" ++ Hex.word m'.fp ++ stepNote done

/-- The lines that show the steps of a path, in order. -/
def pathLines : Machine → List (Step × Machine) → List String
  | _, [] => []
  | m, (done, m₁) :: path => stepLine m done m₁ :: pathLines m₁ path

/-- Lines, each with its end. -/
def linesText (lines : List String) : String :=
  lines.foldr (fun line text => line ++ "\n" ++ text) ""

theorem length_pathLines (m : Machine) (path : List (Step × Machine)) :
    (pathLines m path).length = path.length := by
  induction path generalizing m with
  | nil => rfl
  | cons taken path ih => exact congrArg (· + 1) (ih taken.2)

/-- The line that is printed for a row is that of its step, and ends it. -/
theorem traceLine_rowOf (m : Machine) (done : Step) (m' : Machine) :
    traceLine (rowOf m (.ok done) m') done = stepLine m done m' ++ "\n" := by
  cases done <;> rfl

/-- A text that grows by the line of each step grows by the lines of the path.
The command prints in a loop of its own, and shows a trace by another, so this
is stated for any of them. -/
theorem foldl_pathRows {next : String → TraceRow → String}
    (h : ∀ text m done m', next text (rowOf m (.ok done) m') =
      text ++ traceLine (rowOf m (.ok done) m') done)
    (m : Machine) (path : List (Step × Machine)) (before : String) :
    (pathRows m path).foldl next before =
      before ++ linesText (pathLines m path) := by
  induction path generalizing m before with
  | nil => exact String.append_empty.symm
  | cons taken path ih =>
    rw [pathRows, List.foldl_cons, ih, h, traceLine_rowOf, String.append_assoc]
    rfl

/-- What is shown of a trace is one line for each step of its path, also
where a failure follows.  The failure itself is told by the complaint,
and not by a line. -/
theorem traceLines_pathRows (m : Machine) (path : List (Step × Machine)) :
    traceLines (pathRows m path) = linesText (pathLines m path) ∧
      ∀ m₁ e m', traceLines (pathRows m path ++ [rowOf m₁ (.error e) m']) =
        linesText (pathLines m path) := by
  have hlines : traceLines (pathRows m path) = linesText (pathLines m path) :=
    (foldl_pathRows (fun _ _ _ _ => rfl) m path "").trans String.empty_append
  refine ⟨hlines, fun m₁ e m' => ?_⟩
  rw [← hlines, traceLines, traceLines, List.foldl_append]
  rfl

/-- The text of an item is on one line, and so is the mark for an address
where there is none. -/
theorem newline_notMem_itemShown (m : Machine) : '\n' ∉ (itemShown m).toList := by
  unfold itemShown Listing.atAddress
  split
  · next text length hat =>
    split at hat
    · cases hat
    · split at hat
      · cases hat
      · unfold Listing.first at hat
        split at hat <;> cases hat
        · next item hitem =>
            exact item.notMem_text (by decide) (by decide) (by decide)
        · decide
  · decide

/-- A step is shown on one line, as its item is and the rest is
numbers and names. -/
theorem newline_notMem_stepLine (m : Machine) (done : Step) (m' : Machine) :
    '\n' ∉ (stepLine m done m').toList := by
  have hitem := Listing.newline_notMem_column (newline_notMem_itemShown m)
  have hnote : '\n' ∉ (stepNote done).toList := by
    cases done
    · exact (by decide : '\n' ∉ "".toList)
    · exact (by decide : '\n' ∉ "  (skipped)".toList)
  have hword : ∀ word, '\n' ∉ (Hex.word word).toList :=
    fun word => Hex.notMem_word word (by decide)
  simp only [stepLine, String.toList_append, List.mem_append, not_or]
  exact ⟨⟨⟨⟨⟨⟨⟨⟨⟨hword _, by decide⟩, hitem⟩, by decide⟩, hword _⟩, by decide⟩,
    hword _⟩, by decide⟩, hword _⟩, hnote⟩

/-- Every step of a path is shown on one line.  So the lines of a trace can be
counted off what is printed. -/
theorem newline_notMem_pathLines {m : Machine} {path : List (Step × Machine)}
    {line : String} (h : line ∈ pathLines m path) : '\n' ∉ line.toList := by
  induction path generalizing m with
  | nil => cases h
  | cons taken path ih =>
    rcases List.mem_cons.1 h with rfl | hmem
    · exact newline_notMem_stepLine m taken.1 taken.2
    · exact ih hmem

end CommandLine

end StackMachine
