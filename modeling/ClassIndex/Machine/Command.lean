import ClassIndex.Machine.Error
import ClassIndex.Machine.Value

/-!
# Commands

`Instruction.command?` says what an instruction asks the machine to do. Most instructions ask for
nothing. Of the others, those whose operands do not have the right shape are malformed; operands are
looked at before any value is taken off the stack.
-/

namespace ClassIndex

/-- Something that the machine can do. -/
inductive Command where
  /-- Push a value. -/
  | push (value : Value)
  /-- Push the current scope. -/
  | pushSelf
  /-- Push the scope of the top level. -/
  | pushRoot
  /-- Take off the top value. -/
  | discard
  /-- Take off the top value and put it back. -/
  | refresh
  /-- Replace the namespace on top by the constant of that name in it. -/
  | readConstant (name : Value)
  /-- Take the superclass and the enclosing class, and define a class with a body. -/
  | defineClass (name : Value) (body : Sequence) (flags : Value)
  /-- Take a body and a name, and define a method. The receiver is the current scope, or, for a
  method of the class itself, a third value. -/
  | defineMethod (side : MethodSide)
  /-- Take a name and a receiver, and define a method from a block. -/
  | defineFromBlock (side : MethodSide) (block : Option Sequence)
  /-- Take a name and a receiver, and push the method. -/
  | findMethod (side : MethodSide)
  /-- Take a module and a receiver, and mix the module in. -/
  | mixIn (kind : MixinKind)
  /-- Do nothing: the call declares nothing. -/
  | ignoreCall (method : String)
  /-- End the body and close its frame. -/
  | leave
  deriving Inhabited

namespace MethodSide

/-- The call that defines a method. -/
def definer : MethodSide → String
  | instanceSide => "define_method"
  | classSide => "define_singleton_method"

/-- The call that looks up a method. -/
def finder : MethodSide → String
  | instanceSide => "instance_method"
  | classSide => "method"

end MethodSide

namespace Command

/-- The command of a call whose arguments all stand on the stack. -/
def ofCall (method : String) : Command :=
  match method with
  | "define_method" => defineMethod .instanceSide
  | "define_singleton_method" => defineMethod .classSide
  | "instance_method" => findMethod .instanceSide
  | "method" => findMethod .classSide
  | "include" => mixIn .included
  | "extend" => mixIn .extended
  | "prepend" => mixIn .prepended
  | other => ignoreCall other

/-- The command of a call that may come with a block. -/
def ofCallWithBlock (method : String) (block : Option Sequence) : Command :=
  match method with
  | "define_method" => defineFromBlock .instanceSide block
  | "define_singleton_method" => defineFromBlock .classSide block
  | other => ignoreCall other

/-- The command that pushes the special object of a kind. -/
def ofSpecialObject : Option Int64 → Command
  | some 1 => pushRoot
  | some 3 => pushSelf
  | _ => push .nil

end Command

namespace Instruction

/-- The operand at a position. -/
def operand? (instruction : Instruction) (index : Nat) : Option Operand :=
  instruction.operands[index]?

def malformed (instruction : Instruction) (index : Nat) (expected : String) : RunError :=
  .malformedOperand instruction.opcode index expected

/-- A literal operand; nil counts as one. -/
def literalOperand (instruction : Instruction) (index : Nat) : Except RunError Value :=
  match instruction.operand? index with
  | some (.literal value) => .ok (.literal value)
  | some .nil => .ok .nil
  | _ => .error (instruction.malformed index "a literal")

/-- An operand that is a sequence. -/
def sequenceOperand (instruction : Instruction) (index : Nat) : Except RunError Sequence :=
  match instruction.operand? index with
  | some (.sequence body) => .ok body
  | _ => .error (instruction.malformed index "an instruction sequence")

/-- An operand that describes a call. -/
def callOperand (instruction : Instruction) (index : Nat) : Except RunError CallSite :=
  match instruction.operand? index with
  | some (.call site) => .ok site
  | _ => .error (instruction.malformed index "a call descriptor")

/-- An operand that is an integer, if it is one. -/
def integerOperand? (instruction : Instruction) (index : Nat) : Option Int64 :=
  match instruction.operand? index with
  | some (.literal value) => value.integer?
  | _ => none

/-- What an instruction asks for; nothing if it has no meaning for indexing. -/
def command? (instruction : Instruction) : Option (Except RunError Command) :=
  match instruction.opcode with
  | .putNil | .getInlineCache => some (.ok (.push .nil))
  | .putSelf => some (.ok .pushSelf)
  | .putObject => some do
    let value ← instruction.literalOperand 0
    return .push value
  | .putSpecialObject => some (.ok (.ofSpecialObject (instruction.integerOperand? 0)))
  | .putIseq => some do
    let body ← instruction.sequenceOperand 0
    return .push (.sequence body)
  | .pop => some (.ok .discard)
  | .setInlineCache => some (.ok .refresh)
  | .getConstant => some do
    let name ← instruction.literalOperand 0
    return .readConstant name
  | .defineClass => some do
    let name ← instruction.literalOperand 0
    let body ← instruction.sequenceOperand 1
    let flags ← instruction.literalOperand 2
    return .defineClass name body flags
  | .optSendWithoutBlock => some do
    let site ← instruction.callOperand 0
    return .ofCall site.target
  | .send => some do
    let site ← instruction.callOperand 0
    return .ofCallWithBlock site.target ((instruction.operand? 2).bind Operand.sequence?)
  | .leave => some (.ok .leave)
  | _ => none

end Instruction

end ClassIndex
