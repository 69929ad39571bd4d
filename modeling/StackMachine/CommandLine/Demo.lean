import StackMachine.CommandLine.Run
import StackMachine.Program.Assembler

/-!
# The demonstration

The command `demo` runs a small program that calls a subroutine, and shows the
registers and the stack after every step.

## Main definitions

* `CommandLine.demoProgram` — the program
* `CommandLine.demo` — the command
-/

namespace StackMachine.CommandLine

/-- Where the subroutine stands. -/
def subroutine : UInt16 := 0x3000

/-- A program that fills the stack, calls a subroutine without arguments
and halts behind it. -/
def demoProgram : Program :=
  let main := Assembler.start.emitAll
    [.pushLit 0x1111, .pushLit 0x2222, .pushLit 0x3333,
      .movLitReg 0x1234 .r1, .movLitReg 0x5678 .r4,
      .pushLit 0x0000, .calLit subroutine,
      .pushLit 0x4444, .hlt]
  ((main.org subroutine).emitAll
    [.pushLit 0x0102, .pushLit 0x0304, .pushLit 0x0506,
      .movLitReg 0x0708 .r1, .movLitReg 0x090a .r8, .ret]).build

/-- Show at most so many steps behind what has been printed. -/
def narrate : (steps : Nat) → (output : String) → Machine → Outcome
  | 0, output, _ => .success output
  | steps + 1, output, m =>
    if m.state = .running then
      match m.traceStep with
      | (row, m) =>
        match row.outcome with
        | .error fault => .failure output (faultLine row.ip fault)
        | .ok _ =>
          narrate steps
            (output ++ Hex.word row.ip ++ ": " ++ itemText row ++ "\n" ++
              m.registerDump ++ "\n" ++
              stackText m "stack " "stack unavailable" ++ "\n\n") m
    else .success (output ++ "✓ Halted after " ++
      toString m.cycles.toNat ++ " steps\n")

/-- Run the program of the demonstration and show every step. -/
def demo : Outcome :=
  let title := "━━━ Call/Return Demo ━━━\n\n"
  match (Machine.loadProgram demoProgram).run Machine.default with
  | .error e _ => .failure title ("Failed to load program: " ++ e.message)
  | .ok () m => narrate (m.budget + 1) title m

end StackMachine.CommandLine
