import StackMachine.Machine.Execute
import StackMachine.Listing

/-!
# Runs

A run is a number of steps, one after another, as long as the machine is
running.

## Main definitions

* `Machine.budget` — how many steps can still be counted
* `Machine.runWithin` — at most so many steps
* `Machine.runFor`, `Machine.runUntilHalt` — a run with a limit and one without
* `TraceRow`, `Machine.trace` — a run with a record of every step

## Design notes

**Steps are counted in sixty-four bits.**  A run with a limit stops before the
step that the count has no room for, so it takes no more steps than `budget`.  A
run without a limit tries that step as well, since only steps that succeed are
counted: if it fails, the run ends with its failure and the count is as it was.
The run ends there in any case, so both are defined by recursion on a number of
steps.
-/

namespace StackMachine

/-- What is recorded of one step of a run. -/
structure TraceRow where
  /-- The instruction pointer before the step. -/
  ip : UInt16
  /-- The text and the length of what stood there. -/
  item : Except OutOfBounds (String × Nat)
  /-- What the step did. -/
  outcome : Except Fault Step
  /-- The accumulator after the step. -/
  acc : UInt16
  /-- The stack pointer after the step. -/
  sp : UInt16
  /-- The frame pointer after the step. -/
  fp : UInt16
  /-- The frame count after the step. -/
  frameBytes : UInt16

namespace Machine

/-- How many steps can still be counted. -/
def budget (m : Machine) : Nat := 0xffffffffffffffff - m.cycles.toNat

/-- Take at most so many steps while the machine is running, and count
them on from `taken`. -/
def runWithin : (steps taken : Nat) → Action Fault Nat
  | 0, taken => pure taken
  | steps + 1, taken => do
    if (← get).state = .running then
      let _ ← step
      runWithin steps (taken + 1)
    else
      return taken

/-- Take at most `limit` steps while the machine is running, and give their
number. -/
def runFor (limit : Nat) : Action Fault Nat := do
  runWithin (min limit (← get).budget) 0

/-- Take steps until the machine is no longer running, and give their number.
The step after the last that can be counted is tried too, for it may fail. -/
def runUntilHalt : Action Fault Nat := do
  runWithin ((← get).budget + 1) 0

/-- One step and its record. -/
def traceStep (m : Machine) : TraceRow × Machine :=
  let ip := m.ip
  let item := Listing.atAddress m.memory ip
  match step m with
  | .ok done m => (⟨ip, item, .ok done, m.acc, m.sp, m.fp, m.frameBytes⟩, m)
  | .error e m => (⟨ip, item, .error e, m.acc, m.sp, m.fp, m.frameBytes⟩, m)

/-- At most so many steps, recorded behind the rows already gathered.  A step
is tried whatever the state of the machine; after it the machine must be
running for another. -/
def traceWithin :
    (steps : Nat) → Array TraceRow → Machine → Array TraceRow × Machine
  | 0, rows, m => (rows, m)
  | steps + 1, rows, m =>
    match traceStep m with
    | (row, m) =>
      if m.state = .running then traceWithin steps (rows.push row) m
      else (rows.push row, m)

/-- The records of at most `limit` steps, up to the first after which the
machine is not running, and the machine after them. -/
def trace (limit : Nat) (m : Machine) : List TraceRow × Machine :=
  let (rows, m) := traceWithin limit #[] m
  (rows.toList, m)

end Machine

end StackMachine
