import StackMachine.Machine.Fetch

/-!
# The stack and subroutines

The stack grows toward lower addresses.  The stack pointer is the address of the
next free slot: a push writes there and moves the pointer down one word, and a
pop moves it up one word and reads. A call saves what the caller needs as a
frame:

```text
  higher addresses
  | argument n .. argument 1 |  pushed by the caller
  | argument count           |  pushed by the caller
  | r1 .. r8                 |  eight words
  | return address           |
  | frame size               |  <- frame pointer + 2
  | next free slot           |  <- frame pointer, and stack pointer after the call
  lower addresses
```

## Main definitions

* `Machine.push`, `Machine.pop`
* `Machine.checkRoom` — whether a number of pushes would all succeed
* `Machine.call`, `Machine.ret`

## Main statements

* `Machine.push_of_le`, `Machine.push_of_lt` — a push inside memory and one
  outside
* `Machine.pop_eq` — the stack pointer moves whether or not the read succeeds

## Design notes

**The frame size** is the count of bytes pushed since the last call or return,
with the frame itself in it.  A return adds it to the frame pointer to find the
frame pointer of the caller.

**A call writes its whole frame or nothing.**  The ten slots are tested before
the first push.  A return writes no memory, so it is not tested beforehand.
-/

namespace StackMachine.Machine

/-- How many words a call pushes: the general registers, the return address
and the frame size. -/
def frameWords : Nat := 10

/-- Put a word on the stack. -/
def push (value : UInt16) : Action Fault Unit := do
  let sp ← readRegister .sp
  storeWord sp value
  modify fun m => { m.setRegister .sp (sp - 2) with frameBytes := m.frameBytes + 2 }

/-- Take the topmost word off the stack. -/
def pop : Action Fault UInt16 := do
  let sp ← readRegister .sp
  modify fun m => { m.setRegister .sp (sp + 2) with frameBytes := m.frameBytes - 2 }
  loadWord (sp + 2)

/-- A push that fits writes the word, moves the pointer and counts two bytes. -/
theorem push_of_le {m : Machine} (value : UInt16)
    (h : m.sp.toNat + 2 ≤ m.memory.size) :
    push value m =
      .ok () { m with
        bank := m.bank.set .sp (m.sp - 2)
        memory := m.memory.setWord m.sp.toNat value h
        frameBytes := m.frameBytes + 2 } := by
  have hstore := (storeWord_eq m.sp value m).trans (dif_pos h)
  change EStateM.bind (storeWord m.sp value) _ m = _
  rw [EStateM.bind, hstore]
  rfl

/-- A push that does not fit complains about the free slot and changes nothing. -/
theorem push_of_lt {m : Machine} (value : UInt16)
    (h : m.memory.size < m.sp.toNat + 2) :
    push value m = .error (.memory ⟨m.sp.toNat, 2, m.memory.size⟩) m := by
  have hstore := (storeWord_eq m.sp value m).trans (dif_neg (Nat.not_le.2 h))
  change EStateM.bind (storeWord m.sp value) _ m = _
  rw [EStateM.bind, hstore]

/-- A pop moves the pointer and the count before it reads, so both have moved
where the read fails. -/
theorem pop_eq (m : Machine) :
    pop m =
      match m.memory.readWord (m.sp + 2).toNat with
      | .ok word =>
        .ok word { m with
          bank := m.bank.set .sp (m.sp + 2)
          frameBytes := m.frameBytes - 2 }
      | .error e =>
        .error (.memory e) { m with
          bank := m.bank.set .sp (m.sp + 2)
          frameBytes := m.frameBytes - 2 } := rfl

/-- Take so many words off the stack and forget them. -/
def drop : Nat → Action Fault Unit
  | 0 => pure ()
  | n + 1 => do
    let _ ← pop
    drop n

/-- The slot that the push after `i` others would write to. -/
def slot (sp : UInt16) (i : Nat) : UInt16 := sp - UInt16.ofNat (2 * i)

/-- Whether so many pushes, one after another, would all write inside memory; if
not, what the first to fail would complain about. -/
def checkRoom (m : Machine) (words : Nat) : Except OutOfBounds Unit :=
  match (List.range words).find? fun i =>
    m.memory.size < (slot m.sp i).toNat + 2 with
  | none => .ok ()
  | some i => .error ⟨(slot m.sp i).toNat, 2, m.memory.size⟩

/-- Save the state of the caller and go on at an address. -/
def call (target : UInt16) : Action Fault Unit := do
  match (← get).checkRoom frameWords with
  | .error e => throw (.memory e)
  | .ok () =>
    Register.general.forM fun r => do push (← readRegister r)
    push (← readRegister .ip)
    push ((← get).frameBytes + 2)
    writeRegister .fp (← readRegister .sp)
    modify fun m => { m with frameBytes := 0 }
    writeRegister .ip target

/-- Take down the frame at the frame pointer, with the arguments of the call,
and go on behind the call. -/
def ret : Action Fault Unit := do
  let base ← readRegister .fp
  writeRegister .sp base
  let frameSize ← pop
  modify fun m => { m with frameBytes := frameSize }
  let returnAddress ← pop
  writeRegister .ip returnAddress
  Register.general.reverse.forM fun r => do writeRegister r (← pop)
  let count ← pop
  drop count.toNat
  writeRegister .fp (base + frameSize)

end StackMachine.Machine
