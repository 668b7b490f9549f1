import ClassIndex.Proofs.Runs

/-!
# What commands do

Every command but `leave` has the same shape: it takes a fixed number of values off the stack
(`Command.takes`), lets the host act on them (`Command.perform`), and is then settled with the
host's reply: nothing happens, a value is pushed, or a body is run and the entity that it defines
left in place of its result (`Machine.settle`).  `execute_eq` says so, and the facts about single
commands that the rest of the theory needs are derived from it.
-/

namespace ClassIndex

/-- What a command comes to once its values are taken off the stack. -/
inductive Reply where
  | nothing
  | value (value : Value)
  /-- The body is run next, and then the entity is pushed. -/
  | definition (entity : Value) (body : Sequence)

namespace Reply

/-- The reply to the definition of a method, whose body is run next if there is one. -/
def ofMethod (method : Value) : Option Sequence → Reply
  | some body => definition method body
  | none => value method

/-- How many values a reply leaves on the stack. -/
def leaves : Reply → Nat
  | nothing => 0
  | value _ | definition _ _ => 1

theorem leaves_ofMethod (method : Value) (body : Option Sequence) :
    (ofMethod method body).leaves = 1 := by
  cases body <;> rfl

end Reply

namespace Memory

/-- The memory without the topmost values. -/
def dropping (count : Nat) (memory : Memory) : Memory :=
  { memory with values := memory.values.drop count }

end Memory

namespace Command

/-- How many values a command takes off the stack. -/
def takes : Command → Nat
  | push _ | pushSelf | pushRoot | ignoreCall _ | leave => 0
  | discard | refresh | readConstant _ => 1
  | defineClass _ _ _ | defineMethod .instanceSide | defineFromBlock _ _ | findMethod _
  | mixIn _ => 2
  | defineMethod .classSide => 3

/-- How many values a command leaves in their place. -/
def leaves : Command → Nat
  | discard | mixIn _ | ignoreCall _ | leave => 0
  | _ => 1

variable {σ : Type}

/-- What the host does for a command, given the values that the command took. -/
def perform (processors : Processors σ) (self root : Value) : Command → List Value → ActionM σ Reply
  | push value, _ => return .value value
  | pushSelf, _ => return .value self
  | pushRoot, _ => return .value root
  | refresh, [value] => return .value value
  | readConstant name, [enclosing] => do
    return .value (← processors.dispatch .getConstant none [name, enclosing])
  | defineClass name body flags, [superclass, enclosing] => do
    return .definition (← processors.dispatch .defineClass none
      [name, .sequence body, superclass, enclosing, flags]) body
  | defineMethod .instanceSide, [body, name] => do
    return .ofMethod (← processors.dispatch .optSendWithoutBlock
      MethodSide.instanceSide.definer [self, name, body]) body.sequence?
  | defineMethod .classSide, [body, name, receiver] => do
    return .ofMethod (← processors.dispatch .optSendWithoutBlock
      MethodSide.classSide.definer [receiver, name, body]) body.sequence?
  | defineFromBlock side block, [name, receiver] => do
    return .ofMethod (← processors.dispatch .send side.definer
      [receiver, name, .ofSequence? block]) block
  | findMethod side, [name, receiver] => do
    return .value (← processors.dispatch .optSendWithoutBlock side.finder [receiver, name])
  | mixIn kind, [source, receiver] => do
    let _ ← processors.dispatch .optSendWithoutBlock kind.name [receiver, source]
    return .nothing
  | ignoreCall method, _ => do
    ActionM.report (.ignoredCall method)
    return .nothing
  | _, _ => return .nothing

end Command

namespace RunM

variable {σ α β : Type}

/-- Takes values off the stack, one after another. -/
def take : Nat → RunM σ (List Value)
  | 0 => return []
  | count + 1 => do
    let value ← pop
    let rest ← take count
    return value :: rest

theorem act_pure (value : α) : act (pure value : ActionM σ α) = pure value := rfl

theorem act_bind (action : ActionM σ α) (next : α → ActionM σ β) :
    act (action >>= next) = act action >>= fun value => act (next value) := by
  refine ExceptT.ext (StateT.ext fun machine => ?_)
  rw [run_bind, run_act, run_act, ActionM.run_bind]
  rcases action.run.run machine.host with ⟨outcome, host⟩
  cases outcome <;> rfl

theorem pop_ends (machine : Machine σ) :
    (pop : RunM σ Value).Ends machine
      (match machine.memory.values with
        | [] => .error .stackUnderflow
        | value :: _ => .ok value)
      { machine with memory := machine.memory.dropping 1 } := by
  rcases machine with ⟨⟨_ | ⟨value, rest⟩, scopes, hscopes, frames⟩, host⟩ <;> rfl

/-- Values are taken as long as there are any, also when they do not suffice. -/
theorem take_ends (count : Nat) (machine : Machine σ) :
    (take count : RunM σ (List Value)).Ends machine
      (if count ≤ machine.memory.depth then .ok (machine.memory.values.take count)
        else .error .stackUnderflow)
      { machine with memory := machine.memory.dropping count } := by
  induction count generalizing machine with
  | zero => rfl
  | succ count ih =>
    rcases machine with ⟨⟨_ | ⟨value, rest⟩, scopes, hscopes, frames⟩, host⟩
    · exact (pop_ends _).bind_error _
    · refine (pop_ends _).bind ?_
      have h := ih ⟨⟨rest, scopes, hscopes, frames⟩, host⟩
      by_cases hcount : count ≤ rest.length
      · rw [Memory.depth, if_pos hcount] at h
        rw [Memory.depth, List.length_cons, if_pos (by omega)]
        exact h.bind rfl
      · rw [Memory.depth, if_neg hcount] at h
        rw [Memory.depth, List.length_cons, if_neg (by omega)]
        exact h.bind_error _

theorem memory_bind_const (next : RunM σ α) : (memory >>= fun _ => next) = next := rfl

end RunM

namespace Machine

variable {σ : Type}

/-- The part of a command before a body is run. -/
def prepare (processors : Processors σ) (command : Command) : RunM σ Reply := do
  let taken ← RunM.take command.takes
  let memory ← RunM.memory
  RunM.act (command.perform processors memory.self memory.root taken)

/-- The part of a command after the host has replied. -/
def settle (nested : Nested σ) : Reply → RunM σ Unit
  | .nothing => return
  | .value value => RunM.push value
  | .definition entity body => runEntityWith nested entity body

theorem settle_nothing (nested : Nested σ) : settle nested .nothing = pure () := rfl

theorem settle_value (nested : Nested σ) (value : Value) :
    settle nested (.value value) = RunM.push value := rfl

theorem settle_definition (nested : Nested σ) (entity : Value) (body : Sequence) :
    settle nested (.definition entity body) = runEntityWith nested entity body := rfl

theorem settle_ofMethod (nested : Nested σ) (method : Value) (body : Option Sequence) :
    settle nested (.ofMethod method body) = enterMethod nested method body := by
  cases body <;> rfl

/-- Every command but `leave` is prepared and then settled. -/
theorem execute_eq (processors : Processors σ) (nested : Nested σ) {command : Command}
    (h : command ≠ .leave) :
    execute processors nested command = prepare processors command >>= settle nested := by
  cases command with
  | leave => exact absurd rfl h
  | defineMethod side =>
    cases side <;>
      simp only [execute, prepare, RunM.take, Command.takes, Command.perform, bind_assoc,
        pure_bind, RunM.act_pure, RunM.act_bind, RunM.memory_bind_const, settle_ofMethod, definee]
  | _ =>
    simp only [execute, prepare, RunM.take, Command.takes, Command.perform, bind_assoc,
      pure_bind, RunM.act_pure, RunM.act_bind, RunM.memory_bind_const, settle_nothing,
      settle_value, settle_definition, settle_ofMethod, RunM.report, bind_pure_unit]

end Machine

end ClassIndex
