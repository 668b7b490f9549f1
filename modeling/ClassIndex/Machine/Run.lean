import ClassIndex.Machine.Command
import ClassIndex.Machine.Memory
import ClassIndex.Machine.Processors

/-!
# Running sequences

The machine walks through a sequence once, from its first instruction to its end or its first
`leave`. Values are moved on its stacks, and declarations are handed to the processors. The body of
a class or a method is run in a frame and a scope of its own, with the defined entity as `self`; it
leaves one value, which the entity then replaces.

A body may be a value that a processor returned, so nothing bounds how deep bodies nest. The runs
below take a number of levels that they may go down, and `none` says that it was too small.
-/

namespace ClassIndex

/-- A machine: the memory, and the host of the processors. -/
structure Machine (σ : Type) where
  memory : Memory
  host : Host σ

/-- Runs of the machine. A failed run keeps what it did before it failed; `none` stands for a run
that went too deep. -/
abbrev RunM (σ : Type) : Type → Type :=
  ExceptT RunError (StateT (Machine σ) Option)

/-- Whether a body goes on after an instruction. -/
inductive Flow where
  | next
  | leave
  deriving DecidableEq, Repr, Inhabited

namespace RunM

variable {σ α : Type}

/-- A run that went too deep. -/
def tooDeep : RunM σ α :=
  ExceptT.mk fun _ => none

/-- Carries out an action of a processor. -/
def act (action : ActionM σ α) : RunM σ α :=
  ExceptT.mk fun machine =>
    let (result, host) := action.run.run machine.host
    some (result, { machine with host := host })

/-- Reports an event. -/
def report (event : Event) : RunM σ Unit :=
  act (ActionM.report event)

/-- The memory as it is. -/
def memory : RunM σ Memory :=
  return (← get).memory

/-- Changes the memory. -/
def update (change : Memory → Memory) : RunM σ Unit :=
  modify fun machine => { machine with memory := change machine.memory }

/-- An operation on the memory that may fail, and then changes nothing. -/
def attempt (operation : Memory → Except RunError (α × Memory)) : RunM σ α := do
  match operation (← memory) with
  | .error error => throw error
  | .ok (result, after) =>
    update fun _ => after
    return result

def push (value : Value) : RunM σ Unit :=
  update (·.push value)

def pop : RunM σ Value :=
  attempt Memory.pop

/-- The outcome of a run as a value. -/
def outcome (run : RunM σ α) : RunM σ (Except RunError α) :=
  ExceptT.lift run.run

/-- Runs `body` in a frame and a scope of its own and yields the value that it leaves. The frame is
closed on every path. -/
def enclosed (self : Value) (body : RunM σ Unit) : RunM σ Value := do
  let level := (← memory).frameDepth
  update (·.enter self)
  let outcome ← body.outcome
  let (result, after) := (← memory).finish level outcome
  update fun _ => after
  ExceptT.mk (pure result)

end RunM

namespace Machine

variable {σ : Type}

/-- How a nested body is run, with which `self`. -/
abbrev Nested (σ : Type) : Type :=
  Value → Sequence → RunM σ Value

/-- Runs the body of a definition and leaves the defined entity in place of its result. -/
def runEntityWith (nested : Nested σ) (entity : Value) (body : Sequence) : RunM σ Unit := do
  let _ ← nested entity body
  let _ ← RunM.pop
  RunM.push entity

/-- Runs the body of a new method if it has one, and leaves the method on the stack. -/
def enterMethod (nested : Nested σ) (method : Value) : Option Sequence → RunM σ Unit
  | some body => runEntityWith nested method body
  | none => RunM.push method

/-- What a method is defined on when its body stands on the stack: the current scope, or, for a
method of a class itself, the next value on the stack. -/
def definee : MethodSide → RunM σ Value
  | .instanceSide => return (← RunM.memory).self
  | .classSide => RunM.pop

/-- Carries out a command. -/
def execute (processors : Processors σ) (nested : Nested σ) : Command → RunM σ Unit
  | .push value => RunM.push value
  | .pushSelf => do RunM.push (← RunM.memory).self
  | .pushRoot => do RunM.push (← RunM.memory).root
  | .discard => do
    let _ ← RunM.pop
  | .refresh => do RunM.push (← RunM.pop)
  | .readConstant name => do
    let enclosing ← RunM.pop
    RunM.push (← RunM.act (processors.dispatch .getConstant none [name, enclosing]))
  | .defineClass name body flags => do
    let superclass ← RunM.pop
    let enclosing ← RunM.pop
    let entity ← RunM.act (processors.dispatch .defineClass none
      [name, .sequence body, superclass, enclosing, flags])
    runEntityWith nested entity body
  | .defineMethod side => do
    let body ← RunM.pop
    let name ← RunM.pop
    let receiver ← definee side
    let method ← RunM.act (processors.dispatch .optSendWithoutBlock side.definer
      [receiver, name, body])
    enterMethod nested method body.sequence?
  | .defineFromBlock side block => do
    let name ← RunM.pop
    let receiver ← RunM.pop
    let method ← RunM.act (processors.dispatch .send side.definer
      [receiver, name, .ofSequence? block])
    enterMethod nested method block
  | .findMethod side => do
    let name ← RunM.pop
    let receiver ← RunM.pop
    RunM.push (← RunM.act (processors.dispatch .optSendWithoutBlock side.finder [receiver, name]))
  | .mixIn kind => do
    let source ← RunM.pop
    let receiver ← RunM.pop
    let _ ← RunM.act (processors.dispatch .optSendWithoutBlock kind.name [receiver, source])
  | .ignoreCall method => RunM.report (.ignoredCall method)
  | .leave => do
    let _ ← RunM.attempt Memory.leave

/-- Whether a body ends with a command. -/
def flowAfter : Command → Flow
  | .leave => .leave
  | _ => .next

/-- Carries out an instruction. -/
def step (processors : Processors σ) (nested : Nested σ) (instruction : Instruction) :
    RunM σ Flow := do
  match instruction.command? with
  | none =>
    RunM.report (.skipped instruction.opcode)
    return .next
  | some decoded =>
    RunM.report (.running instruction)
    let command ← ExceptT.mk (pure decoded)
    execute processors nested command
    return flowAfter command

/-- Carries out instructions up to their end or the first `leave`. -/
def runCode (processors : Processors σ) (nested : Nested σ) : List Instruction → RunM σ Unit
  | [] => return
  | instruction :: rest => do
    match ← step processors nested instruction with
    | .next => runCode processors nested rest
    | .leave => return

/-- Carries out the instructions of a sequence, given how nested bodies are run. -/
def runWith (processors : Processors σ) (nested : Nested σ) (body : Sequence) : RunM σ Unit := do
  RunM.report (.entered body)
  runCode processors nested body.code

/-- Runs a body in a frame and a scope of its own, going down at most `levels` levels. -/
def runInFrame (processors : Processors σ) : (levels : Nat) → Nested σ
  | 0, _, _ => RunM.tooDeep
  | levels + 1, self, body =>
    RunM.enclosed self (runWith processors (runInFrame processors levels) body)

/-- Runs a sequence in the frame and the scope that are open. -/
def run (processors : Processors σ) (levels : Nat) (body : Sequence) : RunM σ Unit :=
  runWith processors (runInFrame processors levels) body

/-- Runs a sequence of the top level, with the root scope as `self`. -/
def runProgram (processors : Processors σ) (levels : Nat) (body : Sequence) : RunM σ Value := do
  runInFrame processors levels (← RunM.memory).root body

/-- Runs the body of a definition and leaves the defined entity on the stack. -/
def runEntity (processors : Processors σ) (levels : Nat) (entity : Value) (body : Sequence) :
    RunM σ Unit :=
  runEntityWith (runInFrame processors levels) entity body

end Machine

end ClassIndex
