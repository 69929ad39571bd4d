import StackMachine.Machine.Basic

/-!
# Fetching at the instruction pointer

Code is read at the instruction pointer, which moves behind what was read and
wraps around at the end of the address space.  A read that fails leaves it where
it was.

## Main definitions

* `Machine.fetchByte`, `Machine.fetchWord` — the next byte and the next word of
  code
* `Machine.fetchRegister` — the register selected by the next byte
* `Machine.loadWord`, `Machine.storeWord` — a word of memory at an address
-/

namespace StackMachine.Machine

/-- The word of memory at an address. -/
def loadWord (address : UInt16) : Action Fault UInt16 := fun m =>
  match m.memory.readWord address.toNat with
  | .ok word => .ok word m
  | .error e => .error (.memory e) m

/-- Write a word of memory at an address. -/
def storeWord (address value : UInt16) : Action Fault Unit
  | ⟨bank, memory, state, cycles, policy, frameBytes, lastOpcode⟩ =>
    if h : address.toNat + 2 ≤ memory.size then
      .ok () ⟨bank, memory.setWord address.toNat value h, state, cycles,
        policy, frameBytes, lastOpcode⟩
    else
      .error (.memory ⟨address.toNat, 2, memory.size⟩)
        ⟨bank, memory, state, cycles, policy, frameBytes, lastOpcode⟩

theorem storeWord_eq (address value : UInt16) (m : Machine) :
    storeWord address value m =
      if h : address.toNat + 2 ≤ m.memory.size then
        .ok () { m with memory := m.memory.setWord address.toNat value h }
      else .error (.memory ⟨address.toNat, 2, m.memory.size⟩) m := rfl

/-- The byte at the instruction pointer, which moves on by one. -/
def fetchByte : Action Fault UInt8 := fun m =>
  match m.memory.readByte m.ip.toNat with
  | .ok byte => .ok byte (m.setRegister .ip (m.ip + 1))
  | .error e => .error (.memory e) m

/-- The word at the instruction pointer, which moves on by two. -/
def fetchWord : Action Fault UInt16 := fun m =>
  match m.memory.readWord m.ip.toNat with
  | .ok word => .ok word (m.setRegister .ip (m.ip + 2))
  | .error e => .error (.memory e) m

/-- The register that the byte at the instruction pointer selects. -/
def fetchRegister : Action Fault Register := do
  return Register.ofSelector (← fetchByte)

/-- The word in a register, given by its raw position. -/
def registerAt (i : UInt8) : Action Fault UInt16 := fun m =>
  match m.bank.readIndex i with
  | .ok word => .ok word m
  | .error e => .error (.memory e) m

/-- The word in a register. -/
def readRegister (r : Register) : Action Fault UInt16 := do
  return (← get).register r

/-- Put a word into a register. -/
def writeRegister (r : Register) (value : UInt16) : Action Fault Unit :=
  modify (·.setRegister r value)

end StackMachine.Machine
