import StackMachine.CommandLine.Perform

/-!
# The program

The files that a command may read are read first; what the command comes to is
then computed from them and printed.
-/

namespace StackMachine.CommandLine

/-- Why a file cannot be read, by the kind of the system's error.  A name
that is too long has the number 36, which the system may also give with
the sign reversed. -/
def FileError.ofError : IO.Error → FileError
  | .noFileOrDirectory .. => .notFound
  | .inappropriateType _ code _ => if code = 21 ∨ code = -21 then .isDirectory
      else .notDirectory
  | .permissionDenied .. => .permissionDenied
  | .invalidArgument _ code details =>
    if code = 36 ∨ code = -36 then .nameTooLong else .other details
  | e => .other (toString e)

/-- The bytes of a file. -/
def readFile (path : String) : IO (Except FileError ByteArray) := do
  try
    return .ok (← IO.FS.readBinFile path)
  catch e =>
    return .error (.ofError e)

/-- The files at some paths. -/
def readFiles (paths : List String) : IO Files := do
  let contents ← paths.mapM fun path => do return (path, ← readFile path)
  return fun path => (contents.lookup path).getD (.error .notFound)

/-- Print what a command comes to and give its exit code. -/
def Outcome.print (outcome : Outcome) : IO UInt32 := do
  IO.print outcome.output
  IO.eprint outcome.complaint
  return outcome.exitCode.toUInt32

end StackMachine.CommandLine

open StackMachine.CommandLine in
/-- Carry out what the arguments ask for. -/
def main (args : List String) : IO UInt32 :=
  match parse args with
  | .error e => (refusal e).print
  | .ok command => do (command.perform (← readFiles command.paths)).print
