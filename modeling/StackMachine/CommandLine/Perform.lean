import StackMachine.CommandLine.Arguments
import StackMachine.CommandLine.Demo

/-!
# Carrying out a command

## Main definitions

* `CommandLine.listImage` — the command `disasm`
* `CommandLine.Command.paths` — the files that a command may read
* `CommandLine.Command.perform` — what a command comes to
* `CommandLine.refusal` — what refused arguments come to
-/

namespace StackMachine.CommandLine

/-- List an image. -/
def listImage (files : Files) (path : String) (origin : UInt16) : Outcome :=
  let title := "📖 Disassembling: " ++ path ++ "\n\n"
  match files path with
  | .error e => .failure title (StartError.image e).message
  | .ok image => .success (title ++ Listing.text origin image.data.toList ++ "\n")

/-- What is printed when nothing in particular is asked for. -/
def bannerText : String :=
  "vm16 Emulator v0.1.0\nA minimal 16-bit stack machine\n\nUse --help for available commands\n"

/-- The version of the program. -/
def versionText : String := "vm16-emu 0.1.0\n"

/-- How the program is used. -/
def helpText : String :=
  "An emulator of a minimal 16-bit stack machine\n\n" ++
    "vm16-emu run IMAGE [--origin ADDRESS] [--max-steps NUMBER] [--trace] [--config FILE]\n" ++
    "    [--memory-size BYTES] [--permissive] [--reg NAME=VALUE]... [--json]\n" ++
    "vm16-emu disasm IMAGE [--origin ADDRESS]\n" ++
    "vm16-emu demo\n" ++
    "vm16-emu --version\n"

namespace Command

/-- The files that a command may read. -/
def paths : Command → List String
  | run image s => image :: s.config.toList
  | disassemble image _ => [image]
  | _ => []

/-- What a command comes to. -/
def perform (files : Files) : Command → Outcome
  | banner => .success bannerText
  | version => .success versionText
  | help => .success helpText
  | run image s => runImage files image s
  | disassemble image origin => listImage files image origin
  | demo => CommandLine.demo

end Command

/-- What refused arguments come to. -/
def refusal (e : UsageError) : Outcome := ⟨2, "", "error: " ++ e.message ++ "\n"⟩

end StackMachine.CommandLine
