import StackMachine.Config.Basic
import StackMachine.Opcode.Basic
import StackMachine.Program.Basic
import StackMachine.Register.Bank

/-!
# The machine

A machine is its registers, its memory and what it remembers about its run.

## Main definitions

* `RunState`, `Machine`
* `Machine.create`, `Machine.withMemory` — a fresh machine
* `Machine.reset` — back to a fresh machine of the same size and policy
* `Machine.register`, `Machine.setRegister`, `Machine.registerNamed`,
  `Machine.setRegisterNamed` — registers
* `Fault` — why a machine does not go on
* `Action` — what may change a machine and may fail
* `Machine.load`, `Machine.loadProgram` — machine code into memory

## Design notes

**A failure keeps what was done before it.**  An action gives back the machine
also when it fails, so a pop that reads outside memory has moved the stack
pointer all the same.  Only `Machine.step` undoes such effects.

**One owner of the memory.**  Memory is changed by functions that take the
machine apart first, so that no second reference to the bytes is alive and they
are changed in place.
-/

namespace StackMachine

/-- Whether a machine goes on. -/
inductive RunState where
  /-- The next step will be tried. -/
  | running
  /-- A halt instruction was executed. -/
  | halted
  /-- A step failed. -/
  | faulted
deriving DecidableEq, Repr

namespace RunState

/-- Every state. -/
def all : List RunState := [running, halted, faulted]

/-- The name of a state. -/
def name : RunState → String
  | running => "Running"
  | halted => "Halted"
  | faulted => "Faulted"

end RunState

/-- A machine: registers, memory and the record of its run. -/
structure Machine where
  /-- The registers. -/
  bank : Bank
  /-- The main memory. -/
  memory : Memory
  /-- Whether the machine goes on. -/
  state : RunState
  /-- How many steps have succeeded since the machine was fresh. -/
  cycles : UInt64
  /-- What is done with a byte that is no opcode. -/
  policy : OpcodePolicy
  /-- How many more bytes were pushed than popped since the last call or return. -/
  frameBytes : UInt16
  /-- The opcode of the instruction executed last. -/
  lastOpcode : Option Opcode
deriving DecidableEq

/-- Why a machine does not go on. -/
inductive Fault where
  /-- The machine has halted or failed before. -/
  | notRunning (state : RunState)
  /-- An access does not lie inside memory. -/
  | memory (cause : OutOfBounds)
  /-- A byte is no opcode. -/
  | illegalInstruction (byte : UInt8) (address : UInt16)
deriving DecidableEq, Repr

/-- The wording of a fault. -/
def Fault.message : Fault → String
  | notRunning state => "CPU not running: " ++ state.name
  | memory cause => "memory error: " ++ cause.message
  | illegalInstruction byte address =>
    "illegal instruction " ++ Hex.byte byte ++ " at " ++ Hex.word address

/-- What may change a machine and may fail; a failure keeps the
changes made before it. -/
abbrev Action (ε α : Type) := EStateM ε Machine α

namespace Machine

/-! ### Fresh machines -/

/-- The address of the first free stack slot in a memory that holds nothing on
the stack: one word below its end. -/
def stackTop (memory : Memory) : UInt16 := UInt16.ofNat (memory.size - 2)

/-- A bank with both pointers into the stack at its top. -/
def pointAtTop (bank : Bank) (memory : Memory) : Bank :=
  (bank.set .sp (stackTop memory)).set .fp (stackTop memory)

/-- A machine that has not run, around some memory. -/
def fresh (memory : Memory) (policy : OpcodePolicy) : Machine where
  bank := pointAtTop Bank.zeroed memory
  memory := memory
  state := .running
  cycles := 0
  policy := policy
  frameBytes := 0
  lastOpcode := none

/-- The fresh machine of the default configuration. -/
def default : Machine :=
  fresh (Memory.zeroed Config.default.memorySize) Config.default.opcodePolicy

/-- A fresh machine as configured, with nothing in memory. -/
def create (c : Config) : Except ConfigError Machine := do
  c.validate
  return fresh (Memory.zeroed c.memorySize) c.opcodePolicy

/-- A fresh machine around an image of its memory. -/
def withMemory (memory : Memory) (policy : OpcodePolicy) :
    Except ConfigError Machine := do
  ({ Config.default with memorySize := memory.size } : Config).validate
  return fresh memory policy

/-- The machine made fresh again: its memory and its registers are cleared and
what it remembers of its run is forgotten. -/
def reset (m : Machine) : Machine :=
  { m with
    bank := pointAtTop m.bank.clear m.memory
    memory := m.memory.clear
    state := .running
    cycles := 0
    frameBytes := 0
    lastOpcode := none }

/-! ### Registers -/

/-- The word in a register. -/
def register (m : Machine) (r : Register) : UInt16 := m.bank.get r

/-- The machine with another word in one register. -/
def setRegister (m : Machine) (r : Register) (value : UInt16) : Machine :=
  { m with bank := m.bank.set r value }

/-- The instruction pointer. -/
def ip (m : Machine) : UInt16 := m.register .ip

/-- The accumulator. -/
def acc (m : Machine) : UInt16 := m.register .acc

/-- The stack pointer. -/
def sp (m : Machine) : UInt16 := m.register .sp

/-- The frame pointer. -/
def fp (m : Machine) : UInt16 := m.register .fp

/-- The word in the register that a text names. -/
def registerNamed (m : Machine) (name : String) : Except UnknownRegister UInt16 :=
  m.register <$> Register.parse name

/-- The machine with another word in the register that a text names. -/
def setRegisterNamed (m : Machine) (name : String) (value : UInt16) :
    Except UnknownRegister Machine :=
  (m.setRegister · value) <$> Register.parse name

/-! ### Memory -/

/-- The machine with its memory changed in place. -/
@[inline] def mapMemory (change : Memory → Memory) : Machine → Machine
  | ⟨bank, memory, state, cycles, policy, frameBytes, lastOpcode⟩ =>
    ⟨bank, change memory, state, cycles, policy, frameBytes, lastOpcode⟩

/-- Copy bytes into memory; a block that does not fit is not copied at all. -/
def load (origin : UInt16) (bytes : List UInt8) :
    Action OutOfBounds Unit := fun m =>
  match m.memory.check origin.toNat bytes.length with
  | .ok () => .ok () (m.mapMemory (·.overwrite origin.toNat bytes))
  | .error e => .error e m

/-- Copy the segments of a program into memory, one after another, up to the
first that does not fit. -/
def loadProgram (p : Program) : Action OutOfBounds Unit :=
  p.segments.forM fun segment => load segment.origin segment.bytes.toList

@[simp] theorem register_setRegister_self (m : Machine) (r : Register)
    (value : UInt16) :
    (m.setRegister r value).register r = value := Bank.get_set_self ..

theorem register_setRegister_of_ne (m : Machine) {r s : Register}
    (value : UInt16) (h : r ≠ s) :
    (m.setRegister r value).register s = m.register s := Bank.get_set_of_ne _ _ h

@[simp] theorem setRegister_setRegister (m : Machine) (r : Register)
    (v w : UInt16) :
    (m.setRegister r v).setRegister r w = m.setRegister r w := by
  simp only [setRegister, Bank.set_set]

@[simp] theorem setRegister_register (m : Machine) (r : Register) :
    m.setRegister r (m.register r) = m := by
  simp only [setRegister, register, Bank.set_get]

theorem sp_fresh (memory : Memory) (policy : OpcodePolicy) :
    (fresh memory policy).sp = stackTop memory := by
  refine (Bank.get_set_of_ne _ _ (by decide)).trans ?_
  exact Bank.get_set_self ..

theorem fp_fresh (memory : Memory) (policy : OpcodePolicy) :
    (fresh memory policy).fp = stackTop memory := Bank.get_set_self ..

@[simp] theorem memory_mapMemory (m : Machine) (change : Memory → Memory) :
    (m.mapMemory change).memory = change m.memory := rfl

@[simp] theorem bank_mapMemory (m : Machine) (change : Memory → Memory) :
    (m.mapMemory change).bank = m.bank := rfl

end Machine

end StackMachine
