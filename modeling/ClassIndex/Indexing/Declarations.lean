import ClassIndex.Code.ClassFlags
import ClassIndex.Machine.Command
import ClassIndex.Machine.Processors

/-!
# Declarations

The processors that turn declarations into entries of the class model. Each of them checks all of
its arguments before it changes anything. A declaration on something that is not a class, such as
the nil scope of a plain script, is reported and has no effect.
-/

namespace ClassIndex

namespace Declarations

/-- The receiver of a call. A receiver that is not a class is reported. -/
def receiver? (action : String) (args : Arguments) : ActionM Model (Option ClassId) := do
  match (args.get 0).class? with
  | some id => return some id
  | none =>
    ActionM.report (.skippedReceiver action ((args.get 0).text (← ActionM.state)))
    return none

/-- Defines or reopens a class. The arguments are the name, the body, the superclass, the enclosing
class and the flags. A class that is registered already stays as its first mention made it. -/
def defineClass : Processor Model := fun args => do
  let name ← args.name 0
  let superclass ← args.classOrNil 2
  let enclosing := (args.get 3).class?
  let flags : ClassFlags := ⟨← args.flags 4⟩
  if flags.has .singletonBody then
    match enclosing with
    | some id => return .classRef (← ActionM.update (Model.companion id))
    | none =>
      ActionM.report (.skippedSingleton ((args.get 3).text (← ActionM.state)))
      return .nil
  else
    let fullname := (← ActionM.state).qualify enclosing name
    let record : ClassRecord :=
      if flags.has .moduleBody then .modular fullname enclosing
      else .ordinary fullname superclass enclosing
    let id ← ActionM.update (Model.define fullname record)
    ActionM.report (.foundClass fullname)
    return .classRef id

/-- Reads a constant. The arguments are the name and the namespace. A constant that is not known yet
is registered as a placeholder. -/
def getConstant : Processor Model := fun args => do
  let name ← args.name 0
  let fullname := (← ActionM.state).qualify (args.get 1).class? name
  return .classRef (← ActionM.update (Model.define fullname (.placeholder fullname)))

/-- The method that a definition makes. A body that is a method already gives an alias of it, a
sequence gives its signature, and anything else no parameters. -/
def methodFrom (model : Model) (name : String) (owner : ClassId) : Value → MethodRecord
  | .methodRef method => (model.methodAt method).aliased name (some owner)
  | .sequence body => { name := name, owner := some owner, parameters := body.signature }
  | _ => { name := name, owner := some owner }

/-- The owner of the methods on one side of a class. Methods of the class itself belong to its
singleton class. -/
def owner (side : MethodSide) (id : ClassId) : ActionM Model ClassId :=
  match side with
  | .instanceSide => return id
  | .classSide => ActionM.update (Model.companion id)

/-- Defines a method. The arguments are the receiver, the name and the body. -/
def defineMethod (side : MethodSide) : Processor Model := fun args => do
  let some id ← receiver? side.definer args | return .nil
  let name ← args.name 1
  let owner ← owner side id
  let record := methodFrom (← ActionM.state) name owner (args.get 2)
  let method ← ActionM.update (Model.addMethod record)
  ActionM.update fun model => ((), model.attachMethod side id method)
  ActionM.report (.foundMethod side name ((← ActionM.state).fullname id))
  return .methodRef method

/-- Looks up a method. The arguments are the receiver and the name. -/
def findMethod (side : MethodSide) : Processor Model := fun args => do
  let some id ← receiver? side.finder args | return .nil
  let name ← args.name 1
  return .ofMethod? ((← ActionM.state).findMethod? side id name)

/-- Mixes in a module. The arguments are the receiver and the module. -/
def mixIn (kind : MixinKind) : Processor Model := fun args => do
  let some id ← receiver? "mixin" args | return .nil
  match (args.get 1).class? with
  | none =>
    ActionM.report (.skippedMixin kind ((args.get 1).text (← ActionM.state)))
    return .nil
  | some source =>
    ActionM.update fun model => ((), model.mixIn kind id source)
    let model ← ActionM.state
    ActionM.report (.foundMixin kind (model.fullname source) (model.fullname id))
    return .nil

/-- Every declaration with the instruction and the call that make it. -/
def all : List (Opcode × List String × Processor Model) :=
  [(.defineClass, [], defineClass),
    (.getConstant, [], getConstant),
    (.optSendWithoutBlock, [MethodSide.instanceSide.definer], defineMethod .instanceSide),
    (.optSendWithoutBlock, [MethodSide.classSide.definer], defineMethod .classSide),
    (.send, [MethodSide.instanceSide.definer], defineMethod .instanceSide),
    (.send, [MethodSide.classSide.definer], defineMethod .classSide),
    (.optSendWithoutBlock, [MethodSide.instanceSide.finder], findMethod .instanceSide),
    (.optSendWithoutBlock, [MethodSide.classSide.finder], findMethod .classSide),
    (.optSendWithoutBlock, [MixinKind.included.name], mixIn .included),
    (.optSendWithoutBlock, [MixinKind.extended.name], mixIn .extended),
    (.optSendWithoutBlock, [MixinKind.prepended.name], mixIn .prepended)]

/-- The processors of all declarations. -/
def processors : Processors Model :=
  (Processors.empty.registerAll all).2

end Declarations

end ClassIndex
