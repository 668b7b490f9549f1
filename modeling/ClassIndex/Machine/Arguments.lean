import ClassIndex.Machine.Error
import ClassIndex.Machine.Value

/-!
# Arguments of processors

A processor gets its arguments by position. The typed readers below fail with an error that says
which processor was handed what.
-/

namespace ClassIndex

/-- The arguments handed to a processor. -/
structure Arguments where
  /-- The name under which errors report the processor. -/
  processor : String
  values : List Value

namespace Arguments

/-- The argument at a position. Missing ones read as nil. -/
def get (args : Arguments) (index : Nat) : Value :=
  args.values[index]?.getD .nil

/-- The error for an argument of the wrong type. -/
def invalid (args : Arguments) (index : Nat) (expected : String) : RunError :=
  .invalidArgument args.processor index expected (args.get index).typeName

/-- A value if there is one, and otherwise the error for an argument. -/
def require {α : Type} (args : Arguments) (index : Nat) (expected : String) :
    Option α → Except RunError α
  | some value => .ok value
  | none => .error (args.invalid index expected)

/-- A symbol or a string. -/
def name (args : Arguments) (index : Nat) : Except RunError String :=
  args.require index "a name" (args.get index).name?

def integer (args : Arguments) (index : Nat) : Except RunError Int64 :=
  args.require index "an integer" (args.get index).integer?

/-- An integer as a word of 32 bits, if it fits. -/
def word? (value : Int64) : Option UInt32 :=
  if 0 ≤ value.toInt ∧ value.toInt < UInt32.size then some (UInt32.ofNat value.toInt.toNat)
  else none

/-- An integer that fits a flag word. -/
def flags (args : Arguments) (index : Nat) : Except RunError UInt32 := do
  let value ← args.integer index
  args.require index "a 32-bit flag word" (word? value)

/-- A class, or nothing for nil. -/
def classOrNil (args : Arguments) (index : Nat) : Except RunError (Option ClassId) :=
  match args.get index with
  | .nil => .ok none
  | .classRef id => .ok (some id)
  | _ => .error (args.invalid index "a class or nil")

end Arguments

end ClassIndex
