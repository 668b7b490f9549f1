import ClassIndex.Model.Basic

/-!
# Liveness

A class or a method is live while it can be reached from some roots through links that keep their
target alive: superclass, enclosing class, singleton class, mixins, method tables, overridden method
and return classes. The other two links, from a method to its owner and from a singleton class to
the class it is attached to, are lost when their target is not live any more; `Model.sweep` drops
them.
-/

namespace ClassIndex

/-- A class or a method of a model. -/
inductive Entity where
  | classEntity (id : ClassId)
  | methodEntity (id : MethodId)
  deriving DecidableEq, Repr

namespace Model

/-- The entities that an entity keeps alive. -/
def keptBy (model : Model) : Entity → List Entity
  | .classEntity id =>
    let record := model.classAt id
    (record.superclass.toList ++ record.enclosing.toList ++ record.companion.toList ++
        record.mixins.map (·.source)).map .classEntity ++
      (record.instanceMethods.methods ++ record.classMethods.methods).map .methodEntity
  | .methodEntity id =>
    let record := model.methodAt id
    record.overridden.toList.map .methodEntity ++ record.returns.map .classEntity

/-- Every entity of the model. -/
def entities (model : Model) : List Entity :=
  (List.range model.classes.size).map (fun index => .classEntity ⟨index⟩) ++
    (List.range model.methods.size).map (fun index => .methodEntity ⟨index⟩)

/-- The entities reached from `pending` without passing through those of `reached`, together with
the latter. Each step takes one entity off the pending ones. -/
def reach (model : Model) : Nat → List Entity → List Entity → List Entity
  | 0, _, reached => reached
  | _ + 1, [], reached => reached
  | steps + 1, entity :: pending, reached =>
    if entity ∈ reached then
      model.reach steps pending reached
    else
      model.reach steps (model.keptBy entity ++ pending) (entity :: reached)

/-- The live entities. Every entity is expanded at most once, so the number of links bounds the
number of steps. -/
def live (model : Model) (roots : List Entity) : List Entity :=
  model.reach (roots.length + (model.entities.flatMap model.keptBy).length) roots []

/-- Whether a class is live. -/
def isLive (model : Model) (roots : List Entity) (id : ClassId) : Bool :=
  .classEntity id ∈ model.live roots

/-- The registered classes as roots. -/
def registered (model : Model) : List Entity :=
  model.catalogue.order.map .classEntity

/-- The model without the owners and attached classes that are not live. -/
def sweep (model : Model) (roots : List Entity) : Model :=
  let live := model.live roots
  let keep (id : Option ClassId) := id.filter fun id => .classEntity id ∈ live
  { model with
    classes := model.classes.map fun record => { record with attached := keep record.attached }
    methods := model.methods.map fun record => { record with owner := keep record.owner } }

end Model

end ClassIndex
