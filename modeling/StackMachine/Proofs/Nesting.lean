import StackMachine.Proofs.Restoration

/-!
# Calls inside calls

Each subroutine of a row calls the next, and the last returns first.  Whatever
they leave on the stack and in the registers, every one of them gets back what
it had when it made its call.

## Main definitions

* `StackOp.pushedWords`, `StackOp.Builds` — operations that only put words on
  the stack
* `Level` — a call with what its caller does before it and its callee at the end
* `Level.nest`, `Level.descend` — calls one inside the other, with and without
  their returns
* `Level.Fits` — calls whose stack lies in memory throughout
* `Machine.GivenBack` — what a caller has when its call has returned

## Main statements

* `Machine.Runs.builds` — operations that build on the stack keep the invariant
  of an activation
* `Machine.Runs.call_of_fits`, `Machine.Runs.givenBack` — one call, and what its
  return gives back
* `Machine.Runs.unwinds` — the calls of a row, by induction on its depth
* `Machine.nested_calls_unwind` — the same from a fresh machine on

## Design notes

**One list for the way in and the way out.**  A level holds what stands before
its call together with what stands before its return, so the calls and returns
of a row of levels match by the way they are written down, and the depth is the
length of the list.

**Room is counted in words.**  `Level.Fits` follows the number of words on the
stack as the levels are entered and left again.  A caller that has been returned
to still has its locals there.
-/

namespace StackMachine

namespace StackOp

/-- The word that an operation pushes. -/
def pushed? : StackOp → Option UInt16
  | push value => some value
  | pop | call _ | ret | set .. | store .. => none

/-- The words that operations push, the first one first. -/
def pushedWords (ops : List StackOp) : List UInt16 := ops.filterMap pushed?

/-- Operations that push words onto a stack of `height` others and leave it
alone but for that: nothing else goes to a pointer into the stack or to the
memory that it takes, and all words have room. -/
def Builds (size : Nat) : (height : Nat) → List StackOp → Prop
  | _, [] => True
  | height, push _ :: ops => 2 * (height + 1) ≤ size ∧ Builds size (height + 1) ops
  | height, set r _ :: ops => (r ≠ .sp ∧ r ≠ .fp) ∧ Builds size height ops
  | height, store address _ :: ops =>
    address.toNat + 2 + 2 * height ≤ size ∧ Builds size height ops
  | _, pop :: _ | _, call _ :: _ | _, ret :: _ => False

instance decidableBuilds (size : Nat) :
    ∀ (height : Nat) (ops : List StackOp), Decidable (Builds size height ops)
  | _, [] => isTrue trivial
  | height, push _ :: ops =>
    have := decidableBuilds size (height + 1) ops
    inferInstanceAs (Decidable (_ ∧ Builds size (height + 1) ops))
  | height, set .. :: ops | height, store .. :: ops =>
    have := decidableBuilds size height ops
    inferInstanceAs (Decidable (_ ∧ Builds size height ops))
  | _, pop :: _ | _, call _ :: _ | _, ret :: _ => isFalse id

end StackOp

open StackOp

/-- A call with what its caller does before it and what its callee does
before it returns. -/
structure Level where
  /-- What the caller does before the call. -/
  before : List StackOp
  /-- The words that the caller has pushed for itself, the first one first. -/
  locals : List UInt16
  /-- The words that it has pushed for its callee. -/
  arguments : List UInt16
  /-- The word that counts these. -/
  count : UInt16
  /-- Where the subroutine starts. -/
  target : UInt16
  /-- What the callee does at its end, when a call of its own has returned. -/
  leave : List StackOp
  /-- The caller pushes its own words first, then the arguments and their count. -/
  pushedWords_before : pushedWords before = locals ++ (arguments ++ [count])
  /-- The count is right. -/
  length_arguments : arguments.length = count.toNat

namespace Level

/-- Calls, each of them made by the callee of the one before. -/
def descend (levels : List Level) : List StackOp :=
  levels.flatMap fun level => level.before ++ [.call level.target]

/-- The returns of such calls, that of the last call first. -/
def ascend : List Level → List StackOp
  | [] => []
  | level :: inner => ascend inner ++ (level.leave ++ [.ret])

/-- Calls, each of them made by the callee of the one before, and their returns. -/
def nest (levels : List Level) : List StackOp := descend levels ++ ascend levels

/-- How many words of the caller of the first of these calls are on the stack
after its return. -/
def kept : List Level → Nat
  | [] => 0
  | level :: _ => level.locals.length

/-- How many words are on the stack when the callee is entered. -/
def entryHeight (level : Level) (height : Nat) : Nat :=
  height + ((pushedWords level.before).length + Machine.frameWords)

/-- Calls whose words, frames included, have room above `height` others. -/
def Fits (size : Nat) : (height : Nat) → List Level → Prop
  | _, [] => True
  | height, level :: inner =>
    Builds size height level.before ∧ 2 * level.entryHeight height ≤ size ∧
      Fits size (level.entryHeight height) inner ∧
        Builds size (level.entryHeight height + kept inner) level.leave

instance decidableFits (size : Nat) :
    ∀ (height : Nat) (levels : List Level), Decidable (Fits size height levels)
  | _, [] => isTrue trivial
  | height, level :: inner =>
    have := decidableFits size (level.entryHeight height) inner
    inferInstanceAs (Decidable (_ ∧ _ ∧
      Fits size (level.entryHeight height) inner ∧ _))

theorem descend_cons (level : Level) (levels : List Level) :
    descend (level :: levels) =
      level.before ++ .call level.target :: descend levels := by
  rw [descend, List.flatMap_cons, List.append_assoc, List.singleton_append, descend]

theorem descend_append (outer levels : List Level) :
    descend (outer ++ levels) = descend outer ++ descend levels :=
  List.flatMap_append

theorem nest_cons (level : Level) (inner : List Level) :
    nest (level :: inner) =
      level.before ++ .call level.target ::
        (nest inner ++ (level.leave ++ [.ret])) := by
  simp only [nest, descend_cons, ascend, List.append_assoc, List.cons_append]

/-- What the caller has on the stack when it makes its call, the topmost word
first: the count, the arguments and its locals. -/
theorem reverse_pushedWords_before (level : Level) :
    (pushedWords level.before).reverse =
      level.count :: (level.arguments.reverse ++ level.locals.reverse) := by
  rw [level.pushedWords_before, List.reverse_append, List.reverse_append,
    List.reverse_singleton, List.singleton_append, List.cons_append]

end Level

open Level

namespace Ledger

/-- The book when the activation that runs has more words on the stack. -/
def built (l : Ledger) (words : List UInt16) : Ledger :=
  { l with current.words := words.reverse ++ l.current.words }

/-- The book when calls of the activation that runs, one inside the
other, have returned. -/
def unwound (l : Ledger) : List Level → Ledger
  | [] => l
  | level :: _ =>
    ⟨⟨level.locals.reverse ++ l.current.words, l.current.calls + 1⟩, l.waiting⟩

/-- The book when the activation that runs has made a call. -/
def entering (l : Ledger) : Ledger := ⟨.entered, l.current :: l.waiting⟩

variable {size : Nat} {l : Ledger}

theorem built_cons (value : UInt16) (words : List UInt16) :
    l.built (value :: words) =
      { l with current.words := value :: l.current.words }.built words := by
  rw [built, built, List.reverse_cons, List.append_assoc, List.singleton_append]

theorem wordCount_built (words : List UInt16) :
    (l.built words).wordCount = l.wordCount + words.length := by
  show (words.reverse ++ l.current.words).length + callerWords l.waiting = _
  rw [List.length_append, List.length_reverse, wordCount]
  omega

/-- Behind all returns, the locals are what is left of each level. -/
theorem wordCount_unwound (levels : List Level) :
    (l.unwound levels).wordCount = l.wordCount + kept levels := by
  cases levels with
  | nil => rfl
  | cons level inner => exact wordCount_built level.locals

theorem wordCount_entering :
    l.entering.wordCount = l.wordCount + Machine.frameWords := by
  show 0 + (Machine.frameWords + l.current.words.length + callerWords l.waiting) = _
  rw [wordCount]
  omega

/-- An activation that has made no call has made at most one when the row has
returned.  This is why each frame pointer comes out right. -/
theorem calls_unwound (levels : List Level) (h : l.current.calls = 0) :
    (l.unwound levels).current.calls ≤ 1 := by
  cases levels with
  | nil => exact Nat.le_trans (Nat.le_of_eq h) (Nat.zero_le 1)
  | cons level inner => exact Nat.le_of_eq (congrArg (· + 1) h)

/-- What a caller has pushed lets it make its call: the count is on top, with as
many arguments below it as it says. -/
theorem mayCall_built (level : Level) :
    (l.built (pushedWords level.before)).current.MayCall := by
  rw [built, level.reverse_pushedWords_before, List.cons_append]
  show level.count.toNat ≤
    (level.arguments.reverse ++ level.locals.reverse ++ _).length
  rw [List.append_assoc, List.length_append, List.length_reverse,
    level.length_arguments]
  exact Nat.le_add_right _ _

/-- A return takes off the arguments and their count and leaves the locals.  The
record of the caller is then what it should be. -/
theorem resumed_built (level : Level) (inner : List Level) :
    ⟨(l.built (pushedWords level.before)).current.resumed, l.waiting⟩ =
      l.unwound (level :: inner) := by
  rw [built, level.reverse_pushedWords_before, unwound, Activation.resumed]
  show Ledger.mk ⟨(level.arguments.reverse ++ level.locals.reverse ++ _).drop
    level.count.toNat, _⟩
    _ = _
  rw [List.append_assoc, List.drop_left' ?_]
  rw [List.length_reverse, level.length_arguments]

/-- A call with room for its frame is allowed. -/
theorem next?_call (target : UInt16) (hmay : l.current.MayCall)
    (hroom : 2 * (l.wordCount + Machine.frameWords) ≤ size) :
    l.next? size (.call target) = some l.entering :=
  next?_eq_some.2 ⟨if_pos hmay, by rwa [wordCount_entering]⟩

end Ledger

namespace Machine

/-- A machine as a caller should find it that made a call with so many arguments. -/
structure GivenBack (before after : Machine) (count : UInt16) : Prop where
  /-- The general registers are as they were. -/
  general : ∀ r ∈ Register.general, after.register r = before.register r
  /-- The machine goes on where the caller was. -/
  ip : after.ip = before.ip
  /-- The caller has its own frame again. -/
  fp : after.fp = before.fp
  /-- The arguments and their count are off the stack. -/
  sp : after.sp = before.sp + 2 * (count + 1)

variable {size : Nat} {l l₁ : Ledger} {below : List UInt16} {m m₁ : Machine}

namespace Runs

/-- The words on the stack are those in the book, so the room in memory can be
read off the book. -/
theorem wordCount_le (h : Runs size l below m) : 2 * l.wordCount ≤ size := by
  have hfits := h.stack.fits
  rw [List.length_append, h.length_below, h.size_eq] at hfits
  exact hfits

/-- Operations that only build on the stack succeed, as long as there is room
for what they push. -/
theorem builds {ops : List StackOp} (h : Runs size l below m)
    (hops : Builds size l.wordCount ops) :
    ∃ m', performAll ops m = .ok () m' ∧
      Runs size (l.built (pushedWords ops)) below m' := by
  induction ops generalizing l m with
  | nil => exact ⟨m, rfl, h⟩
  | cons op ops ih =>
    -- Each operation is one that the book allows.
    obtain ⟨l₁, hplain, hnext, hrest, hbuilt⟩ : ∃ l₁ : Ledger, op.IsPlain ∧
        l.next? size op = some l₁ ∧ Builds size l₁.wordCount ops ∧
          l₁.built (pushedWords ops) = l.built (pushedWords (op :: ops)) := by
      cases op with
      | push value =>
        obtain ⟨hroom, hrest⟩ := hops
        have hcount : (l.built [value]).wordCount = l.wordCount + 1 :=
          Ledger.wordCount_built [value]
        refine ⟨l.built [value], trivial, Ledger.next?_eq_some.2 ⟨rfl, ?_⟩, ?_, ?_⟩
        · rwa [hcount]
        · rwa [hcount]
        · exact (Ledger.built_cons value _).symm
      | set r value =>
        obtain ⟨⟨hsp, hfp⟩, hrest⟩ := hops
        refine ⟨l, trivial, Ledger.next?_eq_some.2
          ⟨if_neg ?_, h.wordCount_le⟩, hrest, rfl⟩
        exact not_or.2 ⟨hsp, hfp⟩
      | store address value =>
        obtain ⟨hbelow, hrest⟩ := hops
        exact ⟨l, trivial, Ledger.next?_eq_some.2
          ⟨if_pos hbelow, h.wordCount_le⟩, hrest, rfl⟩
      | pop | call target | ret => exact absurd hops id
    obtain ⟨m₁, hperform, hruns₁⟩ := h.plain hplain hnext
    obtain ⟨m', hrun, hruns⟩ := ih hruns₁ hrest
    refine ⟨m', ?_, hbuilt ▸ hruns⟩
    rw [performAll_cons, Action.bind_of_ok hperform, hrun]

/-- A caller that has pushed arguments and their count makes its call.  Room for
the frame is all that is asked for beyond that. -/
theorem call_of_fits {level : Level} (h : Runs size l below m)
    (hbefore : Builds size l.wordCount level.before)
    (hroom : 2 * level.entryHeight l.wordCount ≤ size) :
    ∃ m₁ m₂, performAll level.before m = .ok () m₁ ∧
      perform (.call level.target) m₁ = .ok () m₂ ∧
      Runs size (l.built (pushedWords level.before)) below m₁ ∧
      Runs size (l.built (pushedWords level.before)).entering
        (m₁.frame.reverse ++
          ((l.built (pushedWords level.before)).current.words ++ below)) m₂ := by
  obtain ⟨m₁, hrun, hruns₁⟩ := h.builds hbefore
  have hheight :
      2 * ((l.built (pushedWords level.before)).wordCount + frameWords) ≤ size := by
    rw [Ledger.wordCount_built, Nat.add_assoc]
    exact hroom
  have hnext := Ledger.next?_call level.target (Ledger.mayCall_built level) hheight
  obtain ⟨-, -, m₂, hcall, hruns₂⟩ := hruns₁.call hnext
  exact ⟨m₁, m₂, hrun, hcall, hruns₁, hruns₂⟩

/-- The first call of an activation gives back to it what it should.  A later
one would not, as the count of the frame would be off by then. -/
theorem givenBack {level : Level} {inner : List Level} {m' : Machine}
    (hcalls : l.current.calls = 0)
    (h : Runs size (l.built (pushedWords level.before)) below m)
    (hreturned : Runs size (l.unwound (level :: inner)) below m')
    (hrestored : Restored m m') :
    GivenBack m m' level.count := by
  rw [← Ledger.resumed_built] at hreturned
  obtain ⟨count, hread, hsp⟩ := hrestored.sp
  obtain ⟨topmost, arguments, hwords, -, htop⟩ :=
    h.arguments (Ledger.mayCall_built level)
  -- The topmost word on the stack is the count, and that is what the return has
  -- read.
  rw [Ledger.built, level.reverse_pushedWords_before, List.cons_append] at hwords
  rw [← (List.cons.inj hwords).1, hread] at htop
  cases htop
  refine ⟨hrestored.general, hrestored.ip, ?_, hsp⟩
  exact (fp_after_return h hreturned
    (Nat.le_trans (Nat.le_of_eq hcalls) (Nat.zero_le 1))).2 hcalls

end Runs

/-- When a call has been made after other operations and has returned, with the
calls inside it, its caller gets back what it had. -/
def Unwinds (m : Machine) (first : List StackOp) (level : Level)
    (inner : List Level) : Prop :=
  ∃ m₁ m₂, performAll (first ++ level.before) m = .ok () m₁ ∧
    performAll (first ++ nest (level :: inner)) m = .ok () m₂ ∧
      GivenBack m₁ m₂ level.count

/-- Operations that have been done before may be counted among the first. -/
theorem Unwinds.behind {ops first : List StackOp} {level : Level}
    {inner : List Level} (hrun : performAll ops m = .ok () m₁)
    (h : Unwinds m₁ first level inner) :
    Unwinds m (ops ++ first) level inner := by
  obtain ⟨m₂, m₃, hfirst, hnest, hback⟩ := h
  refine ⟨m₂, m₃, ?_, ?_, hback⟩
  · rw [List.append_assoc, performAll_append, Action.bind_of_ok hrun, hfirst]
  · rw [List.append_assoc, performAll_append, Action.bind_of_ok hrun, hnest]

/-- Calls one inside the other return, and each of them gives back to its caller
what it had.  The induction is on the levels, from the outermost. -/
theorem Runs.unwinds {levels : List Level} (h : Runs size l below m)
    (hcalls : l.current.calls = 0) (hfits : Fits size l.wordCount levels) :
    ∃ m', performAll (nest levels) m = .ok () m' ∧
      Runs size (l.unwound levels) below m' ∧
      ∀ outer level inner, levels = outer ++ level :: inner →
        Unwinds m (descend outer) level inner := by
  -- Inside a call the words below are other ones, its frame and all words of
  -- its caller included.
  induction levels generalizing l below m with
  | nil =>
    refine ⟨m, rfl, h, ?_⟩
    intro outer level inner hlevels
    cases outer <;> cases hlevels
  | cons level inner ih =>
    obtain ⟨hbefore, hroom, hinner, hleave⟩ := hfits
    obtain ⟨m₁, m₂, hrun, hcall, hruns₁, hruns₂⟩ := h.call_of_fits hbefore hroom
    have hheight : (l.built (pushedWords level.before)).entering.wordCount =
        level.entryHeight l.wordCount := by
      rw [Ledger.wordCount_entering, Ledger.wordCount_built, Nat.add_assoc,
        Level.entryHeight]
    rw [← hheight] at hinner hleave
    obtain ⟨m₃, hnest, hruns₃, hunwinds⟩ := ih hruns₂ rfl hinner
    rw [← Ledger.wordCount_unwound] at hleave
    obtain ⟨m₄, hend, hruns₄⟩ := hruns₃.builds hleave
    -- At most one call has returned to the callee, so it finds its frame.
    have hdone :
        (((l.built (pushedWords level.before)).entering.unwound inner).built
        (pushedWords level.leave)).current.calls ≤ 1 :=
      Ledger.calls_unwound inner rfl
    obtain ⟨m₅, hret, hruns₅, hrestored⟩ :=
      hruns₁.ret (Ledger.mayCall_built level) hruns₄ hdone
    have hreturned : Runs size (l.unwound (level :: inner)) below m₅ :=
      Ledger.resumed_built level inner ▸ hruns₅
    have hall : performAll (nest (level :: inner)) m = .ok () m₅ := by
      rw [nest_cons, performAll_append, Action.bind_of_ok hrun, performAll_cons,
        Action.bind_of_ok hcall, performAll_append, Action.bind_of_ok hnest,
        performAll_append, Action.bind_of_ok hend, performAll_singleton, hret]
    refine ⟨m₅, hall, hreturned, ?_⟩
    intro outer level' inner' hlevels
    cases outer with
    | nil =>
      cases hlevels
      exact ⟨m₁, m₅, hrun, hall, hruns₁.givenBack hcalls hreturned hrestored⟩
    | cons first outer =>
      cases hlevels
      have hentered : performAll (level.before ++ [.call level.target]) m =
          .ok () m₂ := by
        rw [performAll_append, Action.bind_of_ok hrun, performAll_singleton, hcall]
      exact (hunwinds outer level' inner' rfl).behind hentered

/-- From a fresh machine on, calls nest to any depth: as long as all words on
the stack have room, all calls of a row return, the last one first, and when one
of them has returned, its caller has its registers, its frame and its place in
the code again and is rid of the arguments. -/
theorem nested_calls_unwind {memory : Memory} (policy : OpcodePolicy)
    (hmin : 2 ≤ memory.size) (hmax : memory.size ≤ 65536) {levels : List Level}
    (hfits : Fits memory.size 0 levels) :
    (∃ m, performAll (descend levels ++ ascend levels) (fresh memory policy) =
      .ok () m) ∧
    ∀ outer level inner, levels = outer ++ level :: inner →
      ∃ m₁ m₂, performAll (descend outer ++ level.before)
        (fresh memory policy) = .ok () m₁ ∧
        performAll (descend levels ++ ascend (level :: inner))
          (fresh memory policy) = .ok () m₂ ∧
        GivenBack m₁ m₂ level.count := by
  obtain ⟨m, hrun, -, hunwinds⟩ := (Runs.fresh policy hmin hmax).unwinds rfl hfits
  refine ⟨⟨m, hrun⟩, ?_⟩
  rintro outer level inner rfl
  obtain ⟨m₁, m₂, hfirst, hnest, hback⟩ := hunwinds outer level inner rfl
  rw [nest, ← List.append_assoc, ← descend_append] at hnest
  exact ⟨m₁, m₂, hfirst, hnest, hback⟩

/-- A call with one argument, made by a caller with a word of its own. -/
def outerCall : Level where
  before := [.set .r1 5, .push 1, .push 7, .push 1]
  locals := [1]
  arguments := [7]
  count := 1
  target := 0x30
  leave := [.push 4, .set .ip 2]
  pushedWords_before := rfl
  length_arguments := rfl

/-- A call without arguments, from which its callee returns with other words
in two registers. -/
def innerCall : Level where
  before := [.push 3, .set .acc 9, .push 0]
  locals := [3]
  arguments := []
  count := 0
  target := 0x40
  leave := [.set .r1 6, .push 8, .set .r8 1]
  pushedWords_before := rfl
  length_arguments := rfl

/-- The inner of two calls returns to a caller that has a word of its
own on the stack. -/
theorem inner_call_unwinds :
    ∃ m₁ m₂, performAll (descend [outerCall] ++ innerCall.before)
        (fresh (Memory.zeroed 64) .strict) = .ok () m₁ ∧
      performAll (descend [outerCall, innerCall] ++ ascend [innerCall])
        (fresh (Memory.zeroed 64) .strict) = .ok () m₂ ∧ GivenBack m₁ m₂ 0 := by
  have hmin : 2 ≤ (Memory.zeroed 64).size := by decide
  have hmax : (Memory.zeroed 64).size ≤ 65536 := by decide
  have hfits : Fits (Memory.zeroed 64).size 0 [outerCall, innerCall] := by decide
  exact (nested_calls_unwind .strict hmin hmax hfits).2 [outerCall] innerCall [] rfl

end Machine

end StackMachine
