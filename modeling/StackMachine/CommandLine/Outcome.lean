/-!
# What a command comes to

## Main definitions

* `CommandLine.Outcome` — what the program prints and how it exits
* `CommandLine.FileError`, `CommandLine.Files` — the files that a command may
  read
-/

namespace StackMachine.CommandLine

/-- What the program prints and how it exits. -/
structure Outcome where
  /-- What the program exits with. -/
  exitCode : UInt8
  /-- What it prints. -/
  output : String
  /-- What it complains about, apart from what it prints. -/
  complaint : String
deriving DecidableEq, Repr

namespace Outcome

/-- The command was carried out. -/
def success (output : String) : Outcome := ⟨0, output, ""⟩

/-- The command failed after it had printed something. -/
def failure (output complaint : String) : Outcome :=
  ⟨1, output, "❌ " ++ complaint ++ "\n"⟩

end Outcome

/-- Why a file cannot be read. -/
inductive FileError where
  /-- There is no such file. -/
  | notFound
  /-- The path leads to a directory. -/
  | isDirectory
  /-- The path leads through a file as if it were a directory. -/
  | notDirectory
  /-- The path, or a name in it, is longer than the system allows. -/
  | nameTooLong
  /-- The file may not be read. -/
  | permissionDenied
  /-- Something else, in the words of the system. -/
  | other (text : String)
deriving DecidableEq, Repr

/-- The wording of a file that cannot be read. -/
def FileError.message : FileError → String
  | notFound => "No such file or directory (os error 2)"
  | isDirectory => "Is a directory (os error 21)"
  | notDirectory => "Not a directory (os error 20)"
  | nameTooLong => "File name too long (os error 36)"
  | permissionDenied => "Permission denied (os error 13)"
  | other text => text

/-- The files that can be read, by their paths. -/
abbrev Files := String → Except FileError ByteArray

end StackMachine.CommandLine
