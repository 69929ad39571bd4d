import StackMachine.Proofs.FrameCount
import StackMachine.Proofs.Path

/-!
# The account of a session

A machine can be stepped, run with a limit and run until halt, in any order and
also after it has halted or failed.  Whatever the calls were, its record is the
account of the steps that they tried.

## Main definitions

* `Call`, `Machine.called` — what can be asked of a machine, and the machine
  after it was asked
* `Machine.tried` — what came of each step that the calls tried
* `Machine.Attempts` — steps that are tried one after another, with what came of
  each
* `Machine.Starts` — a machine as it is constructed or reset
* `Machine.Account` — the record of a machine follows from the steps that were
  tried

## Main statements

* `Machine.attempts_of_calls` — calls try these steps, and do nothing else to a
  machine
* `Machine.account_of_attempts` — steps that are tried keep the account
* `Machine.idle` — a machine that is not running is changed by no call
* `Machine.session_keeps_account` — all of this for any calls from the start

## Design notes

**A step that fails is in the log.**  It is what ends a session for good, so the
state of a machine cannot be read off the steps that succeeded.  A machine that
has halted refuses to step and is not faulted by that, which is why the state is
decided by the first outcome that ends the session and not by the last.

**The count is as wide as it is.**  Only the number of steps is subject to the
width of the count; the rest of the account does not depend on it.
-/

namespace StackMachine

/-- What can be asked of a machine. -/
inductive Call where
  /-- One step. -/
  | step
  /-- A run with a limit. -/
  | runFor (limit : Nat)
  /-- A run until halt. -/
  | runUntilHalt

namespace Machine

open StackMachine.Action (leaves)

/-- The machine after it was asked for something, whether or not it could do it. -/
def afterCall (m : Machine) : Call → Machine
  | .step => leaves step m
  | .runFor limit => leaves (runFor limit) m
  | .runUntilHalt => leaves runUntilHalt m

/-- The machine after it was asked for one thing after another. -/
def called (m : Machine) (calls : List Call) : Machine := calls.foldl afterCall m

/-- What comes of at most so many steps, as long as the machine is running. -/
def outcomes : (steps : Nat) → Machine → List (Except Fault Step)
  | 0, _ => []
  | steps + 1, m =>
    if m.state = .running then
      match step m with
      | .ok done m' => .ok done :: outcomes steps m'
      | .error e _ => [.error e]
    else []

/-- What comes of the steps that a call tries.  A single step is tried in any
state. -/
def triedBy (m : Machine) : Call → List (Except Fault Step)
  | .step =>
    match step m with
    | .ok done _ => [.ok done]
    | .error e _ => [.error e]
  | .runFor limit => outcomes (min limit m.budget) m
  | .runUntilHalt => outcomes (m.budget + 1) m

/-- What comes of the steps that one call after another tries. -/
def tried : Machine → List Call → List (Except Fault Step)
  | _, [] => []
  | m, call :: calls => m.triedBy call ++ tried (m.afterCall call) calls

/-- Steps are tried one after another, with these outcomes. -/
inductive Attempts : Machine → List (Except Fault Step) → Machine → Prop
  /-- No step is tried. -/
  | nil (m : Machine) : Attempts m [] m
  /-- The first step succeeds. -/
  | ok {m m₁ m' : Machine} {done : Step} {log : List (Except Fault Step)}
      (hstep : step m = .ok done m₁) (hrest : Attempts m₁ log m') :
        Attempts m (.ok done :: log) m'
  /-- The first step fails. -/
  | error {m m₁ m' : Machine} {e : Fault} {log : List (Except Fault Step)}
      (hstep : step m = .error e m₁) (hrest : Attempts m₁ log m') :
        Attempts m (.error e :: log) m'

/-! ### What a log says -/

/-- How many of the steps that were tried have succeeded. -/
def successes (log : List (Except Fault Step)) : Nat := log.countP Except.toBool

/-- The opcode that was executed, if the step succeeded and executed one. -/
def executed? : Except Fault Step → Option Opcode
  | .ok done => done.opcode?
  | .error _ => none

/-- The opcode that was executed last. -/
def lastExecuted (log : List (Except Fault Step)) : Option Opcode :=
  (log.filterMap executed?).getLast?

/-- The state that a running machine is in after these steps: the first halt
or failure decides. -/
def stateAfter : List (Except Fault Step) → RunState
  | [] => .running
  | .error _ :: _ => .faulted
  | .ok done :: log => if done = .executed .hlt then .halted else stateAfter log

/-- The record of a machine is the account of the steps that were
tried since another. -/
structure Account (m : Machine) (log : List (Except Fault Step))
    (m' : Machine) : Prop where
  /-- The count is that of the steps that succeeded, if there is room for it. -/
  cycles : successes log ≤ 0xffffffffffffffff → m'.cycles.toNat = successes log
  /-- The opcode noted last is the one executed last. -/
  lastOpcode : m'.lastOpcode = lastExecuted log
  /-- The machine is running until it is halted or a step fails. -/
  state : m'.state = stateAfter log
  /-- No byte of memory is added or removed. -/
  size : m'.memory.size = m.memory.size
  /-- Bytes that are no opcode are treated as before. -/
  policy : m'.policy = m.policy
  /-- The registers are the twelve that there are. -/
  bank : m'.bank.memory.size = 24

variable {m m₁ m' : Machine} {log rest : List (Except Fault Step)}

theorem lastExecuted_cons (outcome : Except Fault Step)
    (log : List (Except Fault Step)) :
    lastExecuted (outcome :: log) = (lastExecuted log).or (executed? outcome) := by
  unfold lastExecuted
  cases hexecuted : executed? outcome with
  | none => rw [List.filterMap_cons_none hexecuted, Option.or_none]
  | some op =>
    rw [List.filterMap_cons_some hexecuted, List.getLast?_cons]
    cases (log.filterMap executed?).getLast? <;> rfl

namespace Attempts

theorem append (h : Attempts m log m₁) (hrest : Attempts m₁ rest m') :
    Attempts m (log ++ rest) m' := by
  induction h with
  | nil m => exact hrest
  | ok hstep _ ih => exact .ok hstep (ih hrest)
  | error hstep _ ih => exact .error hstep (ih hrest)

/-- The count of a machine has grown by the successes in the log,
modulo its width. -/
theorem cycles_eq (h : Attempts m log m') :
    m'.cycles = m.cycles + UInt64.ofNat (successes log) := by
  induction h with
  | nil m => exact (UInt64.add_zero m.cycles).symm
  | @ok m m₁ m' done log hstep _ ih =>
    have hcount : successes (.ok done :: log) = successes log + 1 :=
      List.countP_cons_of_pos rfl
    rw [ih, (advanced_of_step hstep).cycles, hcount, count_succ]
  | @error m m₁ m' e log hstep _ ih =>
    have hcount : successes (.error e :: log) = successes log :=
      List.countP_cons_of_neg Bool.false_ne_true
    rw [ih, hcount, step_error_eq hstep]

/-- The opcode that a machine remembers is the last one in the log that was
executed, or the one of before if none was. -/
theorem lastOpcode_eq (h : Attempts m log m') :
    m'.lastOpcode = (lastExecuted log).or m.lastOpcode := by
  induction h with
  | nil m => rfl
  | ok hstep _ ih =>
    rw [ih, (advanced_of_step hstep).lastOpcode, lastExecuted_cons, Option.or_assoc]
    rfl
  | error hstep _ ih =>
    rw [ih, step_error_eq hstep, lastExecuted_cons, executed?, Option.or_none]

theorem size_eq (h : Attempts m log m') : m'.memory.size = m.memory.size := by
  induction h with
  | nil m => rfl
  | ok hstep _ ih => exact ih.trans (advanced_of_step hstep).size
  | error hstep _ ih => rw [ih, step_error_eq hstep]

theorem policy_eq (h : Attempts m log m') : m'.policy = m.policy := by
  induction h with
  | nil m => rfl
  | ok hstep _ ih => exact ih.trans (advanced_of_step hstep).policy
  | error hstep _ ih => rw [ih, step_error_eq hstep]

/-- A machine that is not running stays as it is, and one that is running
follows the log.  The state of before counts only in so far as it says whether
any step is taken. -/
theorem state_eq (h : Attempts m log m') :
    m'.state = if m.state = .running then stateAfter log else m.state := by
  induction h with
  | nil m =>
    split
    · next hstate => exact hstate
    · rfl
  | ok hstep _ ih =>
    rw [if_pos (running_of_step hstep), ih, (advanced_of_step hstep).state,
      stateAfter]
    split <;> rfl
  | @error m m₁ m' e log hstep _ ih =>
    have hnext := congrArg Machine.state (step_error_eq hstep)
    by_cases hstate : m.state = .running
    · simp only [if_pos hstate] at hnext
      rw [ih, hnext, if_pos hstate]
      rfl
    · simp only [if_neg hstate] at hnext
      rw [ih, hnext, if_neg hstate, if_neg hstate]

end Attempts

/-! ### Calls -/

/-- A run tries steps as long as the machine is running.  The log is that of its
steps, with the failure at its end if there is one. -/
theorem attempts_of_runWithin (steps taken : Nat) (m : Machine) :
    Attempts m (outcomes steps m) (leaves (runWithin steps taken) m) := by
  induction steps generalizing taken m with
  | zero => exact .nil m
  | succ steps ih =>
    rw [outcomes, leaves, runWithin_succ]
    by_cases hstate : m.state = .running
    · rw [if_pos hstate, if_pos hstate]
      cases hstep : step m with
      | ok done m₁ => exact .ok hstep (ih (taken + 1) m₁)
      | error e m₁ => exact .error hstep (.nil m₁)
    · rw [if_neg hstate, if_neg hstate]
      exact .nil m

/-- A call tries steps, and does nothing else to a machine.  So the log says all
that has happened. -/
theorem attempts_of_call (m : Machine) (call : Call) :
    Attempts m (m.triedBy call) (m.afterCall call) := by
  cases call with
  | step =>
    rw [triedBy, afterCall, leaves]
    cases hstep : step m with
    | ok done m' => exact .ok hstep (.nil m')
    | error e m' => exact .error hstep (.nil m')
  | runFor limit => exact attempts_of_runWithin (min limit m.budget) 0 m
  | runUntilHalt => exact attempts_of_runWithin (m.budget + 1) 0 m

/-- Calls in a row try the steps of one after those of the other. -/
theorem attempts_of_calls (m : Machine) (calls : List Call) :
    Attempts m (m.tried calls) (m.called calls) := by
  induction calls generalizing m with
  | nil => exact .nil m
  | cons call calls ih =>
    exact (attempts_of_call m call).append (ih (m.afterCall call))

/-- A machine that is not running refuses every step, ends every run at
once and is not changed by either.  Nothing that is asked of it afterwards
shows in its record. -/
theorem idle (h : m.state ≠ .running) :
    step m = .error (.notRunning m.state) m ∧ (∀ limit, runFor limit m = .ok 0 m) ∧
      runUntilHalt m = .ok 0 m := by
  refine ⟨step_not_running h, ?_, ?_⟩
  · intro limit
    exact runWithin_of_not_running h
  · exact runWithin_of_not_running h

/-! ### Sessions -/

/-- A machine as it is constructed or reset. -/
inductive Starts : Machine → Prop
  /-- It is built from a configuration. -/
  | create {c : Config} {m : Machine} (h : create c = .ok m) : Starts m
  /-- It is built around a memory. -/
  | withMemory {memory : Memory} {policy : OpcodePolicy} {m : Machine}
      (h : withMemory memory policy = .ok m) : Starts m
  /-- It is built from the default configuration. -/
  | default : Starts default
  /-- A machine is reset. -/
  | reset (m : Machine) : Starts m.reset

/-- Nothing has been recorded at the start, whichever way the machine was made. -/
theorem Starts.unused (h : Starts m) :
    m.state = .running ∧ m.cycles = 0 ∧ m.lastOpcode = none := by
  cases h with
  | create h =>
    rw [create_eq] at h
    split at h <;> cases h
    exact ⟨rfl, rfl, rfl⟩
  | withMemory h =>
    rw [withMemory_eq] at h
    split at h <;> cases h
    exact ⟨rfl, rfl, rfl⟩
  | default => exact ⟨rfl, rfl, rfl⟩
  | reset m => exact ⟨rfl, rfl, rfl⟩

/-- Steps that are tried on a machine as it starts keep its account, as the
record was empty before the first. -/
theorem account_of_attempts (hstart : Starts m) (h : Attempts m log m') :
    Account m log m' := by
  obtain ⟨hstate, hcycles, hlast⟩ := hstart.unused
  constructor
  case cycles =>
    intro hroom
    rw [h.cycles_eq, hcycles, UInt64.zero_add, UInt64.toNat_ofNat']
    exact Nat.mod_eq_of_lt (Nat.lt_succ_of_le hroom)
  case lastOpcode => rw [h.lastOpcode_eq, hlast, Option.or_none]
  case state => rw [h.state_eq, if_pos hstate]
  case size => exact h.size_eq
  case policy => exact h.policy_eq
  case bank => exact m'.bank.size_memory

/-- Whatever is asked of a machine from its start, nothing but steps is tried,
and its record is the account of them: how many have succeeded, which opcode was
executed last, and whether the machine has halted or failed.  Once it is not
running, nothing that is asked of it changes it. -/
theorem session_keeps_account (hstart : Starts m) (calls : List Call) :
    Attempts m (m.tried calls) (m.called calls) ∧
    Account m (m.tried calls) (m.called calls) ∧
    ((m.called calls).state ≠ .running →
      step (m.called calls) = .error (.notRunning (m.called calls).state)
        (m.called calls) ∧
        (∀ limit, runFor limit (m.called calls) = .ok 0 (m.called calls)) ∧
        runUntilHalt (m.called calls) = .ok 0 (m.called calls)) := by
  have hattempts := attempts_of_calls m calls
  exact ⟨hattempts, account_of_attempts hstart hattempts, idle⟩

/-- A machine built around a byte that is no opcode and a halt. -/
def skipping : Machine := fresh ⟨#[0x00, 0xff]⟩ .permissive

/-- The machine when it has halted. -/
def skippedAndHalted : Machine :=
  { skipping.setRegister .ip 2 with
    state := .halted
    cycles := 2
    lastOpcode := some .hlt }

theorem starts_skipping : Starts skipping :=
  .withMemory (show withMemory ⟨#[0x00, 0xff]⟩ .permissive = .ok skipping from rfl)

theorem called_skipping :
    skipping.called [.step, .runFor 5, .step] = skippedAndHalted := by
  rfl

theorem tried_skipping : skipping.tried [.step, .runFor 5, .step] =
    [.ok (.skipped 0x00), .ok (.executed .hlt), .error (.notRunning .halted)] := by
  rfl

/-- A byte is skipped and the halt executed; the step that is refused
afterwards does not count. -/
theorem account_of_skipping :
    Starts skipping ∧
      Account skipping [.ok (.skipped 0x00), .ok (.executed .hlt),
        .error (.notRunning .halted)]
        skippedAndHalted := by
  have haccount :=
    (session_keeps_account starts_skipping [.step, .runFor 5, .step]).2.1
  rw [called_skipping, tried_skipping] at haccount
  exact ⟨starts_skipping, haccount⟩

end Machine

end StackMachine
