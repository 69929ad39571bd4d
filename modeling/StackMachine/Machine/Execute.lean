import StackMachine.Machine.Stack

/-!
# Steps

A step reads the opcode at the instruction pointer and executes it.

## Main definitions

* `Machine.execute` — one opcode, whose operands stand at the instruction
  pointer
* `Step` — what a step did
* `Machine.advance` — read an opcode and execute it, or treat the byte by the
  policy
* `Machine.step` — the same with its bookkeeping

## Main statements

* `Machine.step_running`, `Machine.step_not_running` — what a step does in
  either case

## Design notes

**Every opcode fetches its own operands.**  The instruction pointer has moved
behind an operand when the next is fetched, and behind all of them when
registers are read.

**A step that fails undoes its changes.**  The registers and the frame count go
back to what they were, and the machine takes no further step.  Memory needs no
undoing: no opcode writes to memory before the last thing in it that can fail.
-/

namespace StackMachine

/-- What a step did. -/
inductive Step where
  /-- It executed an instruction. -/
  | executed (op : Opcode)
  /-- It skipped a byte that is no opcode. -/
  | skipped (byte : UInt8)
deriving DecidableEq, Repr

namespace Step

/-- The opcode that was executed, if one was. -/
def opcode? : Step → Option Opcode
  | executed op => some op
  | skipped _ => none

end Step

namespace Machine

/-- Execute an opcode whose operands stand at the instruction pointer. -/
def execute : Opcode → Action Fault Unit
  | .movLitReg => do
    let literal ← fetchWord
    let target ← fetchRegister
    writeRegister target literal
  | .movRegReg => do
    let source ← fetchRegister
    let target ← fetchRegister
    writeRegister target (← readRegister source)
  | .movRegMem => do
    let source ← fetchRegister
    let address ← fetchWord
    storeWord address (← readRegister source)
  | .movMemReg => do
    let address ← fetchWord
    let target ← fetchRegister
    writeRegister target (← loadWord address)
  | .addRegReg => do
    let a ← fetchByte
    let b ← fetchByte
    let left ← registerAt a
    let right ← registerAt b
    writeRegister .acc (left + right)
  | .jmpNotEq => do
    let literal ← fetchWord
    let address ← fetchWord
    if literal ≠ (← readRegister .acc) then writeRegister .ip address
  | .pushLit => do
    let literal ← fetchWord
    push literal
  | .pushReg => do
    let source ← fetchRegister
    push (← readRegister source)
  | .pop => do
    let target ← fetchRegister
    writeRegister target (← pop)
  | .calLit => do
    let address ← fetchWord
    call address
  | .calReg => do
    let source ← fetchRegister
    call (← readRegister source)
  | .ret => ret
  | .hlt => modify fun m => { m with state := .halted }

/-- Read the byte at the instruction pointer and execute the opcode that it is;
by the policy, a byte that is none is skipped or refused. -/
def advance : Action Fault Step := do
  let address ← readRegister .ip
  let byte ← fetchByte
  match Opcode.ofByte? byte with
  | some op => do
    execute op
    return .executed op
  | none =>
    match (← get).policy with
    | .permissive => return .skipped byte
    | .strict => throw (.illegalInstruction byte address)

/-- One step of a running machine.  If it fails, the registers and the frame
count are as before it and the machine has faulted. -/
def step : Action Fault Step := fun m =>
  match m.state with
  | .running =>
    let bank := m.bank
    let frameBytes := m.frameBytes
    match advance m with
    | .ok done m =>
      .ok done { m with
        cycles := m.cycles + 1
        lastOpcode := done.opcode?.or m.lastOpcode }
    | .error e m => .error e { m with bank, frameBytes, state := .faulted }
  | state => .error (.notRunning state) m

theorem step_running {m : Machine} (h : m.state = .running) :
    step m =
      match advance m with
      | .ok done m' =>
        .ok done { m' with
          cycles := m'.cycles + 1
          lastOpcode := done.opcode?.or m'.lastOpcode }
      | .error e m' =>
        .error e { m' with
          bank := m.bank
          frameBytes := m.frameBytes
          state := .faulted } := by
  rw [step, h]

theorem step_not_running {m : Machine} (h : m.state ≠ .running) :
    step m = .error (.notRunning m.state) m := by
  cases hs : m.state <;> simp_all [step]

end Machine

end StackMachine
