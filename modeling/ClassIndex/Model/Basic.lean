import ClassIndex.Model.Catalogue
import ClassIndex.Model.Record

/-!
# The class model

A `Model` holds the records of every class and method by identity, together with the catalogue of
registered classes. Records are only added, and each operation below changes at most one of those
that were there before. An operation that yields an identity returns it with the model as it is
afterwards.
-/

namespace ClassIndex

/-- All classes and methods, and the registered classes among them. -/
structure Model where
  classes : Array ClassRecord := #[]
  methods : Array MethodRecord := #[]
  catalogue : Catalogue := {}
  deriving Inhabited

namespace Model

/-! ## Reading -/

/-- The class with a given identity. -/
def classAt (model : Model) (id : ClassId) : ClassRecord :=
  model.classes[id.index]?.getD default

/-- The method with a given identity. -/
def methodAt (model : Model) (id : MethodId) : MethodRecord :=
  model.methods[id.index]?.getD default

/-- The qualified name of a class. -/
def fullname (model : Model) (id : ClassId) : String :=
  (model.classAt id).fullname

/-- The method of a class under a name. -/
def findMethod? (model : Model) (side : MethodSide) (id : ClassId) (name : String) :
    Option MethodId :=
  ((model.classAt id).methods side).get? name

/-- The singleton class of a class, the singleton class of that one, and so on, as far as they are
there and up to a number of levels. -/
def tower (model : Model) : Nat → ClassId → List ClassId
  | 0, _ => []
  | levels + 1, id =>
    match (model.classAt id).companion with
    | some companion => companion :: model.tower levels companion
    | none => []

/-- The name of a constant inside a namespace. -/
def qualify (model : Model) (enclosing : Option ClassId) (name : String) : String :=
  match enclosing with
  | some id => model.fullname id ++ "::" ++ name
  | none => name

/-- Whether a class is the one registered under its own name. -/
def isRegistered (model : Model) (id : ClassId) : Bool :=
  model.catalogue.find? (model.fullname id) = some id

/-- Whether a method is the current one under its name: in its owner, or in the class that its owner
is the singleton class of. -/
def isCurrent (model : Model) (id : MethodId) : Bool :=
  let method := model.methodAt id
  match method.owner with
  | none => false
  | some owner =>
    model.findMethod? .instanceSide owner method.name = some id ||
      match (model.classAt owner).attached with
      | none => false
      | some base => model.findMethod? .classSide base method.name = some id

/-- A method in full. -/
def describeMethod (model : Model) (id : MethodId) : String :=
  let method := model.methodAt id
  method.describe (method.owner.map model.fullname)
    (method.overridden.map fun other => (model.methodAt other).name)

/-! ## Adding records -/

/-- Adds a class that is not registered. -/
def addClass (record : ClassRecord) (model : Model) : ClassId × Model :=
  (⟨model.classes.size⟩, { model with classes := model.classes.push record })

/-- Adds a method that no class holds yet. -/
def addMethod (record : MethodRecord) (model : Model) : MethodId × Model :=
  (⟨model.methods.size⟩, { model with methods := model.methods.push record })

/-- The class registered under a name. If there is none, `record` is added and registered. -/
def define (name : String) (record : ClassRecord) (model : Model) : ClassId × Model :=
  match model.catalogue.find? name with
  | some id => (id, model)
  | none =>
    let (id, model) := model.addClass record
    (id, { model with catalogue := model.catalogue.register name id })

/-! ## Changing records -/

def modifyClass (id : ClassId) (change : ClassRecord → ClassRecord) (model : Model) : Model :=
  { model with classes := model.classes.modify id.index change }

def modifyMethod (id : MethodId) (change : MethodRecord → MethodRecord) (model : Model) : Model :=
  { model with methods := model.methods.modify id.index change }

/-- The singleton class of a class, added when it is first asked for. -/
def companion (id : ClassId) (model : Model) : ClassId × Model :=
  match (model.classAt id).companion with
  | some companion => (companion, model)
  | none =>
    let (companion, model) := model.addClass (.companionOf id (model.classAt id))
    (companion, model.modifyClass id fun record => { record with companion := some companion })

/-- Enters a method into a class under the method's own name. -/
def attachMethod (side : MethodSide) (id : ClassId) (method : MethodId) (model : Model) : Model :=
  model.modifyClass id (·.insertMethod side (model.methodAt method).name method)

/-- Mixes a module into a class. -/
def mixIn (kind : MixinKind) (id source : ClassId) (model : Model) : Model :=
  model.modifyClass id fun record => { record with mixins := record.mixins ++ [⟨kind, source⟩] }

/-- Adds a return class to a method. -/
def addReturn (method : MethodId) (id : ClassId) (model : Model) : Model :=
  model.modifyMethod method (·.addReturn id)

end Model

end ClassIndex
