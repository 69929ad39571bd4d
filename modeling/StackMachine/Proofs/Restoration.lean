import StackMachine.Proofs.Activations

/-!
# What calls leave to their callers

Operations that keep to the discipline of the stack run without a failure as
long as no activation has a second call returned to it, and a call that has
returned leaves the general registers, the instruction pointer and the stack
pointer as they ought to be.  The frame pointer is right after the first call of
an activation, and off after the second.

## Main definitions

* `Machine.StaysWithin` — operations that succeed and leave alone what lies
  below their activation
* `Machine.ReturnRestores` — a call that leaves to its caller all that it should

## Main statements

* `Machine.staysWithin_of_balanced` — balanced operations stay within their
  activation
* `Machine.runs_of_disciplined` — a disciplined machine runs an activation
* `Machine.returned_call` — what a call has left when it has returned
* `Machine.returns_restore_iff_single_calls` — every return restores its caller
  if and only if no activation has a second call returned to it

## Design notes

**Matching by induction on the brackets.**  That a call finds its frame when it
returns is proved along `StackOp.Balanced`, with the words below the activation
as a parameter.  Operations that leave activations open are cut at the calls
that opened them (`StackOp.Opened`), and between these cuts they are balanced
again.
-/

namespace StackMachine

open StackOp

namespace Machine

variable {size : Nat} {l l' : Ledger} {below : List UInt16} {m m' : Machine}
  {before body ops : List StackOp}

/-! ### Rows of operations -/

/-- Where the book allows them, operations succeed and leave the words
below as they are. -/
def StaysWithin (size : Nat) (ops : List StackOp) : Prop :=
  ∀ {l l' : Ledger} {below : List UInt16} {m : Machine}, Runs size l below m →
    l.after? size ops = some l' → l.SingleCalls size ops →
      ∃ m', performAll ops m = .ok () m' ∧ Runs size l' below m' ∧
        l'.waiting = l.waiting

/-- A call and its return, around operations that stay within the callee.  The
body may make calls of its own, for which the induction has been done. -/
theorem Runs.call_return {target : UInt16} (h : Runs size l below m)
    (hbody : StaysWithin size body)
    (hafter : l.after? size (.call target :: (body ++ [.ret])) = some l')
    (hsingle : l.SingleCalls size (.call target :: body)) :
    ∃ m', performAll (.call target :: (body ++ [.ret])) m = .ok () m' ∧
      l' = ⟨l.current.resumed, l.waiting⟩ ∧ Runs size l' below m' ∧
        Restored m m' := by
  rw [Ledger.after?_cons, Option.bind_eq_some_iff] at hafter
  obtain ⟨l₁, hentered, hafter⟩ := hafter
  obtain ⟨l₂, hinside, hleft⟩ := Ledger.after?_append_eq_some.1 hafter
  rw [Ledger.after?_singleton] at hleft
  obtain ⟨hmay, rfl, m₁, hcall, hruns₁⟩ := h.call hentered
  have hsingle₁ := ((Ledger.singleCalls_cons hentered).1 hsingle).2
  obtain ⟨m₂, hrun, hruns₂, hwaiting⟩ := hbody hruns₁ hinside hsingle₁
  obtain ⟨m₃, hret, hruns₃, hrestored⟩ :=
    h.ret hmay hruns₂ (hsingle₁.calls_le_after hinside)
  obtain ⟨caller, callers, hcallers, rfl⟩ :=
    Ledger.record?_ret (Ledger.next?_eq_some.1 hleft).1
  rw [hwaiting] at hcallers
  obtain ⟨rfl, rfl⟩ := List.cons.inj hcallers
  refine ⟨m₃, ?_, rfl, hruns₃, hrestored⟩
  rw [performAll_cons, Action.bind_of_ok hcall, performAll_append,
    Action.bind_of_ok hrun, performAll_singleton, hret]

theorem staysWithin_of_balanced (h : Balanced ops) : StaysWithin size ops := by
  induction h with
  | nil =>
    intro l l' below m hruns hafter hsingle
    cases hafter
    exact ⟨m, rfl, hruns, rfl⟩
  | @plain ops op hbefore hop ih =>
    intro l l' below m hruns hafter hsingle
    obtain ⟨l₁, hfirst, hlast⟩ := Ledger.after?_append_eq_some.1 hafter
    rw [Ledger.after?_singleton] at hlast
    obtain ⟨m₁, hrun, hruns₁, hwaiting⟩ := ih hruns hfirst hsingle.of_append
    obtain ⟨m₂, hperform, hruns₂⟩ := hruns₁.plain hop hlast
    have hsame := (Ledger.record?_plain hop (Ledger.next?_eq_some.1 hlast).1).1
    refine ⟨m₂, ?_, hruns₂, hsame.trans hwaiting⟩
    rw [performAll_append, Action.bind_of_ok hrun, performAll_singleton, hperform]
  | @call ops body hbefore target hinside ih ihbody =>
    -- Within the callee the words below are other ones, the frame of the call
    -- included.
    intro l l' below m hruns hafter hsingle
    obtain ⟨l₁, hfirst, hlast⟩ := Ledger.after?_append_eq_some.1 hafter
    obtain ⟨m₁, hrun, hruns₁, hwaiting⟩ := ih hruns hfirst hsingle.of_append
    have hsingle₁ := ((Ledger.singleCalls_append hfirst).1 hsingle).2
    rw [← List.cons_append] at hsingle₁
    obtain ⟨m₂, hcall, rfl, hruns₂, -⟩ :=
      hruns₁.call_return ihbody hlast hsingle₁.of_append
    refine ⟨m₂, ?_, hruns₂, hwaiting⟩
    rw [performAll_append, Action.bind_of_ok hrun, hcall]

/-- A machine that has left activations open runs the last of them.  The others
wait below, with their words and frames on the stack. -/
theorem runs_of_opened {depth : Nat} {l₀ : Ledger} {m₀ : Machine}
    (hopened : Opened depth ops) (h : Runs size l₀ below m₀)
    (hafter : l₀.after? size ops = some l) (hsingle : l₀.SingleCalls size ops) :
    ∃ below' m, performAll ops m₀ = .ok () m ∧ Runs size l below' m := by
  -- One call more is open than the operations before it leave open.
  induction depth generalizing ops l with
  | zero =>
    obtain ⟨m, hrun, hruns, -⟩ := staysWithin_of_balanced hopened h hafter hsingle
    exact ⟨below, m, hrun, hruns⟩
  | succ depth ih =>
    obtain ⟨before, target, body, rfl, hbefore, hbody⟩ := hopened
    obtain ⟨l₁, hfirst, hrest⟩ := Ledger.after?_append_eq_some.1 hafter
    rw [Ledger.after?_cons, Option.bind_eq_some_iff] at hrest
    obtain ⟨l₂, hentered, hinside⟩ := hrest
    obtain ⟨below₁, m₁, hrun₁, hruns₁⟩ := ih hbefore hfirst hsingle.of_append
    have hsingle₁ := ((Ledger.singleCalls_append hfirst).1 hsingle).2
    obtain ⟨-, -, m₂, hcall, hruns₂⟩ := hruns₁.call hentered
    have hsingle₂ := ((Ledger.singleCalls_cons hentered).1 hsingle₁).2
    obtain ⟨m₃, hrun₃, hruns₃, -⟩ :=
      staysWithin_of_balanced hbody hruns₂ hinside hsingle₂
    refine ⟨_, m₃, ?_, hruns₃⟩
    rw [performAll_append, Action.bind_of_ok hrun₁, performAll_cons,
      Action.bind_of_ok hcall, hrun₃]

/-- A return leaves the frame pointer right after the first call of an
activation, and not after the second.  Behind the first, the count is off by the
word of the size. -/
theorem fp_after_return (h : Runs size l below m)
    (hreturned : Runs size ⟨l.current.resumed, l.waiting⟩ below m')
    (hcalls : l.current.calls ≤ 1) :
    m'.fp = m.fp ↔ l.current.calls = 0 := by
  have hdrift : l.current.resumed.drift = 2 * l.current.calls := rfl
  rw [hreturned.fp_eq, h.fp_eq, hdrift, Activation.drift,
    Nat.sub_eq_zero_of_le hcalls]
  generalize freeSlot size below.length = base
  generalize l.current.calls = calls at hcalls
  rcases Nat.le_one_iff_eq_zero_or_eq_one.1 hcalls with rfl | rfl
  · exact ⟨fun _ => rfl, fun _ => rfl⟩
  · constructor
    · intro heq
      have htwo : base + 2 = base + 0 := heq
      exact absurd htwo (by grind)
    · intro hone
      cases hone

/-! ### Fresh machines -/

section Fresh

variable {memory : Memory} {policy : OpcodePolicy} {target : UInt16}

/-- A machine that has kept to the rules runs an activation, from the start on. -/
theorem runs_of_disciplined (policy : OpcodePolicy) (hmin : 2 ≤ memory.size)
    (hmax : memory.size ≤ 65536)
    (hafter : Ledger.start.after? memory.size ops = some l)
    (hsingle : Ledger.start.SingleCalls memory.size ops) :
    ∃ below m, performAll ops (fresh memory policy) = .ok () m ∧
      Runs memory.size l below m :=
  runs_of_opened (Ledger.opened_of_start hafter)
    (Runs.fresh policy hmin hmax) hafter hsingle

/-- A call that has returned, in a run in which no activation had two
calls returned to it yet.  The frame pointer after it tells whether
this was the first. -/
theorem returned_call (policy : OpcodePolicy) (hmin : 2 ≤ memory.size)
    (hmax : memory.size ≤ 65536) (hbody : Balanced body)
    (hafter : Ledger.start.after? memory.size
      (before ++ .call target :: (body ++ [.ret])) = some l')
    (hsingle : Ledger.start.SingleCalls memory.size
      (before ++ .call target :: body)) :
    ∃ l m m', Ledger.start.after? memory.size before = some l ∧
      performAll before (fresh memory policy) = .ok () m ∧
      performAll (before ++ .call target :: (body ++ [.ret]))
        (fresh memory policy) = .ok () m' ∧
      l'.current.calls = l.current.calls + 1 ∧ Restored m m' ∧
      (m'.fp = m.fp ↔ l.current.calls = 0) := by
  obtain ⟨l, hfirst, hrest⟩ := Ledger.after?_append_eq_some.1 hafter
  obtain ⟨below, m, hrun, hruns⟩ :=
    runs_of_disciplined policy hmin hmax hfirst hsingle.of_append
  have hsingle₁ := ((Ledger.singleCalls_append hfirst).1 hsingle).2
  obtain ⟨m', hcall, rfl, hruns', hrestored⟩ :=
    hruns.call_return (staysWithin_of_balanced hbody) hrest hsingle₁
  refine ⟨l, m, m', hfirst, hrun, ?_, rfl, hrestored,
    fp_after_return hruns hruns' ?_⟩
  · rw [performAll_append, Action.bind_of_ok hrun, hcall]
  · exact hsingle₁.calls_le

/-- The call leaves to its caller all that it should: the general registers, the
instruction pointer and the frame pointer are as they were, and the arguments
and their count are off the stack. -/
def ReturnRestores (m : Machine) (before : List StackOp) (target : UInt16)
    (body : List StackOp) :
    Prop :=
  ∃ m₁ m₂, performAll before m = .ok () m₁ ∧
    performAll (before ++ .call target :: (body ++ [.ret])) m = .ok () m₂ ∧
    Restored m₁ m₂ ∧ m₂.fp = m₁.fp

/-- A return that restores its caller is the first to it. -/
theorem calls_after_return (policy : OpcodePolicy) (hmin : 2 ≤ memory.size)
    (hmax : memory.size ≤ 65536)
    (hsofar : Ledger.start.after? memory.size ops = some l)
    (hsingle : Ledger.start.SingleCalls memory.size ops)
    (hnext : l.next? memory.size .ret = some l')
    (hrestores : ∀ before target body, Balanced body →
      before ++ .call target :: (body ++ [.ret]) = ops ++ [.ret] →
        ReturnRestores (fresh memory policy) before target body) :
    l'.current.calls ≤ 1 := by
  -- The call that returns is cut out of the operations.
  obtain ⟨caller, callers, hwaiting, -⟩ :=
    Ledger.record?_ret (Ledger.next?_eq_some.1 hnext).1
  have hopened := Ledger.opened_of_start hsofar
  rw [hwaiting] at hopened
  obtain ⟨before, target, body, rfl, -, hbody⟩ := hopened
  have hreturned :
      Ledger.start.after? memory.size (before ++ .call target :: (body ++ [.ret])) =
      some l' := by
    rw [append_call_ret]
    exact Ledger.after?_append_eq_some.2
      ⟨l, hsofar, Ledger.after?_singleton.trans hnext⟩
  obtain ⟨l₁, m, m', -, hrun, hrun', hcount, -, hfp⟩ :=
    returned_call policy hmin hmax hbody hreturned hsingle
  obtain ⟨m₁, m₂, hrun₁, hrun₂, -, hsame⟩ :=
    hrestores before target body hbody append_call_ret
  rw [hrun] at hrun₁
  rw [hrun'] at hrun₂
  cases hrun₁
  cases hrun₂
  have hfirst := hfp.1 hsame
  omega

/-- While every return restores its caller, no activation has a second call
returned to it.  The operations done so far are kept apart from those still to
come, as each return looks back at the call that it belongs to. -/
theorem singleCalls_of_restores (policy : OpcodePolicy) (hmin : 2 ≤ memory.size)
    (hmax : memory.size ≤ 65536)
    (hsofar : Ledger.start.after? memory.size before = some l)
    (hsingle : Ledger.start.SingleCalls memory.size before)
    (hafter : l.after? memory.size ops = some l')
    (hrestores : ∀ first target body, Balanced body →
      first ++ .call target :: (body ++ [.ret]) <+: before ++ ops →
        ReturnRestores (fresh memory policy) first target body) :
    l.SingleCalls memory.size ops := by
  -- Along the operations still to come: those done so far have kept to single
  -- calls.
  induction ops generalizing before l with
  | nil => exact hsingle.calls_le_after hsofar
  | cons op ops ih =>
    rw [Ledger.after?_cons, Option.bind_eq_some_iff] at hafter
    obtain ⟨l₁, hnext, hrest⟩ := hafter
    have hcalls := hsingle.calls_le_after hsofar
    have hrecord := (Ledger.next?_eq_some.1 hnext).1
    have hahead : before ++ op :: ops = before ++ [op] ++ ops := by
      rw [List.append_assoc, List.singleton_append]
    have hcalls₁ : l₁.current.calls ≤ 1 := by
      cases op with
      | call target =>
        obtain ⟨-, rfl⟩ := Ledger.record?_call hrecord
        exact Nat.zero_le 1
      | ret =>
        refine calls_after_return policy hmin hmax hsofar hsingle hnext ?_
        intro first target body hbody hcut
        exact hrestores first target body hbody
          (hcut ▸ hahead ▸ List.prefix_append _ _)
      | push | pop | set | store =>
        rw [(Ledger.record?_plain (by trivial) hrecord).2]
        exact hcalls
    have honly : l.SingleCalls memory.size [op] :=
      (Ledger.singleCalls_cons hnext).2 ⟨hcalls, hcalls₁⟩
    refine (Ledger.singleCalls_cons hnext).2 ⟨hcalls, ?_⟩
    refine ih ?_ ((Ledger.singleCalls_append hsofar).2 ⟨hsingle, honly⟩) hrest ?_
    · exact Ledger.after?_append_eq_some.2
        ⟨l, hsofar, Ledger.after?_singleton.trans hnext⟩
    · rwa [hahead] at hrestores

/-- In a run that keeps to the rules, every return restores its caller if and
only if no activation has a second call returned to it. -/
theorem returns_restore_iff_single_calls (policy : OpcodePolicy)
    (hmin : 2 ≤ memory.size) (hmax : memory.size ≤ 65536)
    (h : Disciplined memory.size ops) :
    (∀ before target body, Balanced body →
      before ++ .call target :: (body ++ [.ret]) <+: ops →
      ReturnRestores (fresh memory policy) before target body) ↔
    Ledger.start.SingleCalls memory.size ops := by
  obtain ⟨l, hafter⟩ := Option.isSome_iff_exists.1 h
  constructor
  · intro hrestores
    exact singleCalls_of_restores policy hmin hmax Ledger.after?_nil
      (Nat.zero_le 1) hafter
      hrestores
  · rintro hsingle before target body hbody ⟨others, rfl⟩
    obtain ⟨l', hreturned, -⟩ := Ledger.after?_append_eq_some.1 hafter
    have hsingle' := hsingle.of_append
    have hcalls := hsingle'.calls_le_after hreturned
    rw [append_call_ret] at hsingle'
    -- The return makes it one call at most, so there was none before.
    obtain ⟨l₁, m, m', -, hrun, hrun', hcount, hrestored, hfp⟩ :=
      returned_call policy hmin hmax hbody hreturned hsingle'.of_append
    exact ⟨m, m', hrun, hrun', hrestored, hfp.2 (by omega)⟩

end Fresh

/-- A call with an argument whose callee makes a call of its own gives all
back to its caller. -/
theorem nested_calls_restore :
    ReturnRestores (fresh (Memory.zeroed 64) .strict) [.push 7, .push 1] 0x30
      [.push 0, .call 0x40, .set .r1 9, .ret, .push 3] := by
  have hbody : Balanced [.push 0, .call 0x40, .set .r1 9, .ret, .push 3] :=
    Ledger.opened_of_start
      (show Ledger.start.after? 64
        [.push 0, .call 0x40, .set .r1 9, .ret, .push 3] =
        some ⟨⟨[3], 1⟩, []⟩ from by decide)
  have hdisciplined :
      Disciplined (Memory.zeroed 64).size [.push 7, .push 1, .call 0x30, .push 0,
      .call 0x40, .set .r1 9, .ret, .push 3, .ret] := by decide
  have hmin : 2 ≤ (Memory.zeroed 64).size := by decide
  have hmax : (Memory.zeroed 64).size ≤ 65536 := by decide
  exact (returns_restore_iff_single_calls .strict hmin hmax hdisciplined).2
    (by decide) _ _ _ hbody List.prefix_rfl

/-- The second of two calls without arguments returns with another frame pointer. -/
theorem second_return_misplaces_frame_pointer :
    Disciplined (Memory.zeroed 64).size
      [.push 0, .call 0x30, .ret, .push 0, .call 0x30, .ret] ∧
      ¬ ReturnRestores (fresh (Memory.zeroed 64) .strict)
        [.push 0, .call 0x30, .ret, .push 0] 0x30 [] := by
  have hdisciplined : Disciplined (Memory.zeroed 64).size
      [.push 0, .call 0x30, .ret, .push 0, .call 0x30, .ret] := by decide
  refine ⟨hdisciplined, ?_⟩
  rintro ⟨m₁, m₂, hrun₁, hrun₂, -, hsame⟩
  obtain ⟨l', hreturned⟩ := Option.isSome_iff_exists.1 hdisciplined
  have hsingle : Ledger.start.SingleCalls (Memory.zeroed 64).size
      ([.push 0, .call 0x30, .ret, .push 0] ++ [.call 0x30]) := by decide
  obtain ⟨l, m, m', hbefore, hrun, hrun', -, -, hfp⟩ :=
    returned_call .strict (by decide) (by decide) .nil hreturned hsingle
  have hone :
      (Ledger.start.after? (Memory.zeroed 64).size
        [.push 0, .call 0x30, .ret, .push 0]).map
      (·.current.calls) = some 1 := by decide
  rw [hbefore] at hone
  rw [hrun] at hrun₁
  rw [hrun'] at hrun₂
  cases hrun₁
  cases hrun₂
  have hnone : l.current.calls = 0 := hfp.1 hsame
  rw [Option.map_some, hnone] at hone
  cases hone

end Machine

end StackMachine
