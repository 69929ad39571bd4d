/-!
# Configurations

A configuration says how a machine is to be built: how much memory it has, and
what it does with a byte that is no opcode.

## Main definitions

* `OpcodePolicy` — fail on a byte that is no opcode, or skip it
* `Config`, `Config.default`, `Config.permissive`
* `Config.validate` — whether a machine can be built
-/

namespace StackMachine

/-- What a machine does with a byte that is no opcode. -/
inductive OpcodePolicy where
  /-- The step fails. -/
  | strict
  /-- The byte is skipped, and the step counts. -/
  | permissive
deriving DecidableEq, Repr

namespace OpcodePolicy

/-- Every policy. -/
def all : List OpcodePolicy := [strict, permissive]

/-- The name of a policy, in lower case. -/
def name : OpcodePolicy → String
  | strict => "strict"
  | permissive => "permissive"

/-- The name of a policy as it is shown to a person. -/
def label : OpcodePolicy → String
  | strict => "Strict"
  | permissive => "Permissive"

end OpcodePolicy

/-- How a machine is to be built. -/
structure Config where
  /-- How many bytes of memory there are. -/
  memorySize : Nat
  /-- What is done with a byte that is no opcode. -/
  opcodePolicy : OpcodePolicy
deriving DecidableEq, Repr

/-- Why a configuration is refused. -/
inductive ConfigError where
  /-- No machine has so many bytes of memory, or so few. -/
  | memorySize (size : Nat)
  /-- The text is no configuration. -/
  | malformed
deriving DecidableEq, Repr

/-- The wording of a refusal. -/
def ConfigError.message : ConfigError → String
  | .memorySize size =>
    "memory size " ++ toString size ++ " is outside the supported range 2..=65536"
  | .malformed => "invalid configuration: the text is not a configuration in JSON"

namespace Config

/-- The whole address space, and failure on bytes that are no opcode. -/
def default : Config := ⟨0x10000, .strict⟩

/-- The whole address space, and bytes that are no opcode are skipped. -/
def permissive : Config := { default with opcodePolicy := .permissive }

/-- Whether a machine can be built: its memory holds at least one word, and its
last word can be addressed. -/
def validate (c : Config) : Except ConfigError Unit :=
  if 2 ≤ c.memorySize ∧ c.memorySize ≤ 0x10000 then .ok ()
  else .error (.memorySize c.memorySize)

end Config

end StackMachine
