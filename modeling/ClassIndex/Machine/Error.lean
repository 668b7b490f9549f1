import ClassIndex.Code.Opcode

/-!
# Failures

`RunError` lists what can end the indexing of a sequence, `RegistrationError` what can be wrong with
the registration of a processor.
-/

namespace ClassIndex

/-- Failures that end the current sequence. -/
inductive RunError where
  /-- A value was taken off the empty stack. -/
  | stackUnderflow
  /-- A frame was closed that does not hold exactly one value. -/
  | frameImbalance (expected found : Nat)
  /-- A frame was closed and none was open. -/
  | noOpenFrame
  /-- An instruction lacks an operand of the right shape. -/
  | malformedOperand (opcode : Opcode) (index : Nat) (expected : String)
  /-- A processor was handed an argument of the wrong type. -/
  | invalidArgument (processor : String) (index : Nat) (expected got : String)
  deriving DecidableEq, Inhabited

namespace RunError

def message : RunError → String
  | stackUnderflow => "value stack underflow"
  | frameImbalance expected found =>
    s!"frame imbalance: expected {expected} value(s) in frame, found {found}"
  | noOpenFrame => "leave without an open frame"
  | malformedOperand opcode index expected =>
    s!"{opcode.name}: operand {index} should be {expected}"
  | invalidArgument processor index expected got =>
    s!"{processor}: argument {index} should be {expected}, got {got}"

end RunError

/-- Failures of a registration. -/
inductive RegistrationError where
  /-- A qualifier already belongs to a processor of the same instruction. -/
  | overlappingQualifier (opcode : Opcode) (qualifier : String)
  deriving DecidableEq, Inhabited

namespace RegistrationError

def message : RegistrationError → String
  | overlappingQualifier opcode qualifier =>
    "qualifier `" ++ qualifier ++ "` is already registered for " ++ opcode.name

end RegistrationError

end ClassIndex
