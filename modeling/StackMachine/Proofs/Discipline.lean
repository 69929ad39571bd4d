import StackMachine.Machine.Stack

/-!
# Disciplined use of the stack

Subroutines share one stack and trust each other with it.  This module says what
they have to keep to, as a book of the words that each of them has on the stack,
and when the calls and returns of a row of operations match.

## Main definitions

* `StackOp`, `StackOp.perform`, `StackOp.performAll` — what subroutines do with
  the stack
* `StackOp.Balanced` — operations whose calls all return
* `Activation`, `Ledger` — who has which words on the stack
* `Ledger.next?`, `Ledger.after?` — the book after operations that keep to the
  rules
* `Disciplined` — operations that keep to the rules from a fresh machine on
* `Ledger.SingleCalls` — no activation has a second call returned to it

## Main statements

* `Ledger.after?_append`, `Ledger.singleCalls_append` — books along a row of
  operations
* `Ledger.opened_after?` — operations that leave activations open are balanced
  between the calls that opened them

## Design notes

**The book knows no addresses.**  It holds words and their number only, so
whether operations keep to the rules does not depend on what a machine makes of
them.  In particular it does not know the registers that a call saves; a frame
counts as ten words that belong to no activation.

**Room.**  After every operation all words on the stack, frames included, must
lie in memory, each at an address of its own.
-/

namespace StackMachine

/-- An operation of a subroutine. -/
inductive StackOp where
  /-- A word is pushed. -/
  | push (value : UInt16)
  /-- The topmost word is popped. -/
  | pop
  /-- A subroutine is called. -/
  | call (target : UInt16)
  /-- The subroutine returns. -/
  | ret
  /-- A word goes to a register. -/
  | set (r : Register) (value : UInt16)
  /-- A word goes to memory. -/
  | store (address value : UInt16)
deriving DecidableEq, Repr

namespace StackOp

/-- What an operation does to a machine. -/
def perform : StackOp → Action Fault Unit
  | push value => Machine.push value
  | pop => do
    let _ ← Machine.pop
    return
  | call target => Machine.call target
  | ret => Machine.ret
  | set r value => Machine.writeRegister r value
  | store address value => Machine.storeWord address value

/-- What operations do to a machine, one after another. -/
def performAll (ops : List StackOp) : Action Fault Unit := ops.forM perform

/-- Neither a call nor a return. -/
def IsPlain : StackOp → Prop
  | push _ | pop | set .. | store .. => True
  | call _ | ret => False

/-- Operations in which every call returns and every return is from such a call. -/
inductive Balanced : List StackOp → Prop
  | nil : Balanced []
  | plain {ops : List StackOp} {op : StackOp} (before : Balanced ops)
      (hop : op.IsPlain) :
      Balanced (ops ++ [op])
  | call {ops body : List StackOp} (before : Balanced ops) (target : UInt16)
      (inside : Balanced body) : Balanced (ops ++ call target :: (body ++ [ret]))

/-- Operations that leave so many activations open, each of them called by
the one before it. -/
def Opened : Nat → List StackOp → Prop
  | 0, ops => Balanced ops
  | depth + 1, ops => ∃ before target body, ops = before ++ call target :: body ∧
      Opened depth before ∧ Balanced body

end StackOp

open StackOp

/-- A subroutine that has been entered and not yet left. -/
structure Activation where
  /-- The words that it has pushed and that are still on the stack,
  the topmost first. -/
  words : List UInt16
  /-- How many of its calls have returned. -/
  calls : Nat
deriving DecidableEq, Repr

namespace Activation

/-- An activation that has done nothing. -/
def entered : Activation := ⟨[], 0⟩

/-- An activation whose words are a count and, below it, at least as
many others may call. -/
def MayCall (a : Activation) : Prop :=
  match a.words with
  | [] => False
  | count :: arguments => count.toNat ≤ arguments.length

instance (a : Activation) : Decidable a.MayCall := by
  unfold MayCall
  split <;> infer_instance

/-- The activation after the return of a call: the count and the
arguments are gone. -/
def resumed (a : Activation) : Activation where
  words :=
    match a.words with
    | [] => []
    | count :: arguments => arguments.drop count.toNat
  calls := a.calls + 1

end Activation

/-- The activations of a machine. -/
structure Ledger where
  /-- The one that runs. -/
  current : Activation
  /-- Those that wait for a call to return, the last caller first. -/
  waiting : List Activation
deriving DecidableEq, Repr

namespace Ledger

/-- The book of a fresh machine. -/
def start : Ledger := ⟨.entered, []⟩

/-- How many words callers have on the stack: their own, and a frame for every
call. -/
def callerWords : List Activation → Nat
  | [] => 0
  | caller :: callers =>
    Machine.frameWords + caller.words.length + callerWords callers

/-- How many words are on the stack. -/
def wordCount (l : Ledger) : Nat := l.current.words.length + callerWords l.waiting

/-- The book after an operation, if the activation that runs may do it: it
pops only words of its own, calls with arguments and their count, returns only
where it was called, writes to no pointer into the stack, and stores below all
words on the stack. -/
def record? (size : Nat) (l : Ledger) : StackOp → Option Ledger
  | .push value => some { l with current.words := value :: l.current.words }
  | .pop =>
    match l.current.words with
    | [] => none
    | _ :: words => some { l with current.words := words }
  | .call _ =>
    if l.current.MayCall then some ⟨.entered, l.current :: l.waiting⟩ else none
  | .ret =>
    match l.waiting with
    | [] => none
    | caller :: others => some ⟨caller.resumed, others⟩
  | .set r _ => if r = .sp ∨ r = .fp then none else some l
  | .store address _ => if address.toNat + 2 + 2 * l.wordCount ≤ size then
      some l else none

/-- The book after an operation that is allowed and leaves all words in memory. -/
def next? (size : Nat) (l : Ledger) (op : StackOp) : Option Ledger :=
  (l.record? size op).filter fun l' => 2 * l'.wordCount ≤ size

/-- The book after operations that are all allowed. -/
def after? (size : Nat) (l : Ledger) (ops : List StackOp) : Option Ledger :=
  ops.foldlM (next? size) l

/-- From a book on, at most one call returns to each activation. -/
def SingleCalls (size : Nat) : Ledger → List StackOp → Prop
  | l, [] => l.current.calls ≤ 1
  | l, op :: ops =>
    l.current.calls ≤ 1 ∧ ∀ l' ∈ l.next? size op, l'.SingleCalls size ops

end Ledger

/-- Operations that a fresh machine with a memory of some size may do. -/
def Disciplined (size : Nat) (ops : List StackOp) : Prop :=
  (Ledger.start.after? size ops).isSome

namespace StackOp

/-- Operations may be performed in two parts.  The parts of a run, such as a
call with its return, are singled out by this. -/
theorem performAll_append (ops others : List StackOp) :
    performAll (ops ++ others) = performAll ops >>= fun _ => performAll others :=
  List.forM_append

theorem performAll_singleton (op : StackOp) : performAll [op] = perform op :=
  bind_pure_unit

theorem performAll_cons (op : StackOp) (ops : List StackOp) :
    performAll (op :: ops) = perform op >>= fun _ => performAll ops := rfl

/-! ### Matching calls and returns -/

/-- A call with its return is all that comes before the return, and the return.
The induction takes operations off the end, where the return stands. -/
theorem append_call_ret {before body : List StackOp} {target : UInt16} :
    before ++ call target :: (body ++ [ret]) =
      before ++ call target :: body ++ [ret] := by
  rw [List.append_assoc, List.cons_append]

/-- An operation that neither calls nor returns opens and closes nothing. -/
theorem Opened.plain {depth : Nat} {ops : List StackOp} {op : StackOp}
    (h : Opened depth ops) (hop : op.IsPlain) : Opened depth (ops ++ [op]) := by
  cases depth with
  | zero => exact Balanced.plain h hop
  | succ depth =>
    obtain ⟨before, target, body, rfl, hbefore, hbody⟩ := h
    refine ⟨before, target, body ++ [op], ?_, hbefore, hbody.plain hop⟩
    rw [List.append_assoc, List.cons_append]

theorem Opened.call {depth : Nat} {ops : List StackOp} (h : Opened depth ops)
    (target : UInt16) :
    Opened (depth + 1) (ops ++ [.call target]) := ⟨ops, target, [], rfl, h, .nil⟩

/-- A return closes the activation that was opened last; its call is now within
the one before.  What stands between the two is balanced. -/
theorem Opened.ret {depth : Nat} {ops : List StackOp} (h : Opened (depth + 1) ops) :
    Opened depth (ops ++ [.ret]) := by
  obtain ⟨before, target, body, rfl, hbefore, hbody⟩ := h
  rw [← append_call_ret]
  cases depth with
  | zero => exact Balanced.call hbefore target hbody
  | succ depth =>
    obtain ⟨first, entry, inside, rfl, hfirst, hinside⟩ := hbefore
    refine ⟨first, entry, inside ++ .call target :: (body ++ [.ret]),
      ?_, hfirst, ?_⟩
    · rw [List.append_assoc, List.cons_append]
    · exact hinside.call target hbody

end StackOp

namespace Ledger

variable {size : Nat} {l l₁ l₂ : Ledger} {op : StackOp} {ops others : List StackOp}

/-! ### Books along operations -/

/-- An operation is allowed if the record allows it and the stack has room
for what it adds. -/
theorem next?_eq_some :
    l.next? size op = some l₁ ↔ l.record? size op = some l₁ ∧
      2 * l₁.wordCount ≤ size := by
  rw [next?, Option.filter_eq_some_iff, decide_eq_true_eq]

/-- Operations other than calls and returns change the current activation only,
and none of its calls. -/
theorem record?_plain (hop : op.IsPlain) (h : l.record? size op = some l₁) :
    l₁.waiting = l.waiting ∧ l₁.current.calls = l.current.calls := by
  cases op with
  | push value =>
    cases h
    exact ⟨rfl, rfl⟩
  | pop | set r value | store address value =>
    simp only [record?] at h
    split at h <;> cases h
    exact ⟨rfl, rfl⟩
  | call target => exact absurd hop id
  | ret => exact absurd hop id

/-- A call lets the caller wait and enters a new activation.  The topmost word
has to be the count of the arguments below it. -/
theorem record?_call {target : UInt16}
    (h : l.record? size (.call target) = some l₁) :
    l.current.MayCall ∧ l₁ = ⟨.entered, l.current :: l.waiting⟩ := by
  simp only [record?] at h
  split at h <;> cases h
  next hcall => exact ⟨hcall, rfl⟩

/-- A return goes on with the one that waits, which has then made one call more. -/
theorem record?_ret (h : l.record? size .ret = some l₁) :
    ∃ caller callers, l.waiting = caller :: callers ∧
      l₁ = ⟨caller.resumed, callers⟩ := by
  simp only [record?] at h
  split at h <;> cases h
  next caller callers hwaiting => exact ⟨caller, callers, hwaiting, rfl⟩

@[simp] theorem after?_nil : l.after? size [] = some l := rfl

theorem after?_cons :
    l.after? size (op :: ops) = (l.next? size op).bind (·.after? size ops) :=
  List.foldlM_cons

@[simp] theorem after?_singleton : l.after? size [op] = l.next? size op := by
  rw [after?_cons]
  cases l.next? size op <;> rfl

theorem after?_append :
    l.after? size (ops ++ others) =
      (l.after? size ops).bind (·.after? size others) :=
  List.foldlM_append

theorem after?_append_eq_some : l.after? size (ops ++ others) = some l₂ ↔
    ∃ l₁, l.after? size ops = some l₁ ∧ l₁.after? size others = some l₂ := by
  rw [after?_append, Option.bind_eq_some_iff]

/-- Where such a run begins, no more than one call has been made. -/
theorem SingleCalls.calls_le (h : l.SingleCalls size ops) :
    l.current.calls ≤ 1 := by
  cases ops with
  | nil => exact h
  | cons op ops => exact h.1

/-- That an activation makes single calls is a matter of every point of the run,
the first of them included. -/
theorem singleCalls_cons (h : l.next? size op = some l₁) :
    l.SingleCalls size (op :: ops) ↔
      l.current.calls ≤ 1 ∧ l₁.SingleCalls size ops := by
  simp only [SingleCalls, h, Option.mem_some_iff, forall_eq']

/-- So a run is looked at in two parts. -/
theorem singleCalls_append (h : l.after? size ops = some l₁) :
    l.SingleCalls size (ops ++ others) ↔
      l.SingleCalls size ops ∧ l₁.SingleCalls size others := by
  induction ops generalizing l with
  | nil =>
    cases h
    exact ⟨fun hall => ⟨hall.calls_le, hall⟩, fun hall => hall.2⟩
  | cons op ops ih =>
    rw [after?_cons, Option.bind_eq_some_iff] at h
    obtain ⟨l', hnext, hrest⟩ := h
    rw [List.cons_append, singleCalls_cons hnext, singleCalls_cons hnext,
      ih hrest, and_assoc]

/-- What holds at every point of a run holds at every point up to one of them. -/
theorem SingleCalls.of_append (h : l.SingleCalls size (ops ++ others)) :
    l.SingleCalls size ops := by
  induction ops generalizing l with
  | nil => exact h.calls_le
  | cons op ops ih => exact ⟨h.1, fun l' hl' => ih (h.2 l' hl')⟩

/-- It holds of the last point as well. -/
theorem SingleCalls.calls_le_after (h : l.SingleCalls size ops)
    (hafter : l.after? size ops = some l₁) : l₁.current.calls ≤ 1 := by
  rw [← List.append_nil ops, singleCalls_append hafter] at h
  exact h.2

/-- Operations that keep to the rules open one activation for every one that
waits.  So each return has a call that it belongs to. -/
theorem opened_after? (hopened : Opened l.waiting.length others)
    (h : l.after? size ops = some l₁) :
    Opened l₁.waiting.length (others ++ ops) := by
  induction ops generalizing l others with
  | nil =>
    cases h
    rwa [List.append_nil]
  | cons op ops ih =>
    rw [after?_cons, Option.bind_eq_some_iff] at h
    obtain ⟨l', hnext, hrest⟩ := h
    rw [← List.singleton_append, ← List.append_assoc]
    refine ih ?_ hrest
    have hrecord := (next?_eq_some.1 hnext).1
    cases op with
    | call target =>
      obtain ⟨-, rfl⟩ := record?_call hrecord
      exact hopened.call target
    | ret =>
      obtain ⟨caller, callers, hwaiting, rfl⟩ := record?_ret hrecord
      rw [hwaiting] at hopened
      exact hopened.ret
    | push | pop | set | store =>
      obtain ⟨hwaiting, -⟩ := record?_plain (by trivial) hrecord
      rw [hwaiting]
      exact hopened.plain (by trivial)

/-- From the start, where none waits, all that wait were opened by the run. -/
theorem opened_of_start (h : start.after? size ops = some l) :
    Opened l.waiting.length ops :=
  opened_after? (show Opened start.waiting.length [] from .nil) h

instance decidableSingleCalls (size : Nat) :
    ∀ (l : Ledger) (ops : List StackOp), Decidable (l.SingleCalls size ops)
  | l, [] => inferInstanceAs (Decidable (l.current.calls ≤ 1))
  | l, op :: ops =>
    have : ∀ l' : Ledger, Decidable (l'.SingleCalls size ops) :=
      fun l' => decidableSingleCalls size l' ops
    inferInstanceAs (Decidable (_ ∧
      ∀ l' ∈ l.next? size op, l'.SingleCalls size ops))

end Ledger

instance (size : Nat) (ops : List StackOp) : Decidable (Disciplined size ops) :=
  inferInstanceAs (Decidable (_ = true))

end StackMachine
