import ClassIndex.Code.Parameter
import ClassIndex.Model.MethodTable

/-!
# Class and method records

What is known about one class and about one method. Records refer to each other by identity. Two of
the links do not keep their target alive: the owner of a method and the class that a singleton
class is attached to.
-/

namespace ClassIndex

/-- What kind of class a record stands for. -/
inductive ClassKind where
  | ordinary
  | modular
  | singleton
  deriving DecidableEq, Repr, Inhabited

namespace ClassKind

def name : ClassKind → String
  | ordinary => "class"
  | modular => "module"
  | singleton => "singleton"

end ClassKind

/-- A module mixed into a class. -/
structure Mixin where
  kind : MixinKind
  source : ClassId
  deriving DecidableEq, Repr, Inhabited

/-- What is known about a class. -/
structure ClassRecord where
  /-- The name with all enclosing names. -/
  fullname : String
  kind : ClassKind
  superclass : Option ClassId := none
  /-- The class or module around the definition. -/
  enclosing : Option ClassId := none
  /-- The class that a singleton class belongs to. -/
  attached : Option ClassId := none
  /-- The singleton class, once there is one. -/
  companion : Option ClassId := none
  instanceMethods : MethodTable := {}
  classMethods : MethodTable := {}
  /-- Mixed in modules, in order of declaration. -/
  mixins : List Mixin := []
  deriving Inhabited

namespace ClassRecord

/-- A class as its definition states it. -/
def ordinary (fullname : String) (superclass enclosing : Option ClassId) : ClassRecord where
  fullname := fullname
  kind := .ordinary
  superclass := superclass
  enclosing := enclosing

/-- A module as its definition states it. -/
def modular (fullname : String) (enclosing : Option ClassId) : ClassRecord where
  fullname := fullname
  kind := .modular
  enclosing := enclosing

/-- What stands for a constant that is mentioned before its definition. -/
def placeholder (fullname : String) : ClassRecord where
  fullname := fullname
  kind := .ordinary

/-- The singleton class of a class. -/
def companionOf (id : ClassId) (record : ClassRecord) : ClassRecord where
  fullname := "#<Class:" ++ record.fullname ++ ">"
  kind := .singleton
  attached := some id

/-- The methods of one side. -/
def methods (record : ClassRecord) : MethodSide → MethodTable
  | .instanceSide => record.instanceMethods
  | .classSide => record.classMethods

/-- The record with one more method. -/
def insertMethod (side : MethodSide) (name : String) (method : MethodId) (record : ClassRecord) :
    ClassRecord :=
  match side with
  | .instanceSide => { record with instanceMethods := record.instanceMethods.insert name method }
  | .classSide => { record with classMethods := record.classMethods.insert name method }

/-- The modules mixed in with one kind of declaration, in order. -/
def mixinsOf (record : ClassRecord) (kind : MixinKind) : List ClassId :=
  (record.mixins.filter fun mixin => mixin.kind = kind).map (·.source)

end ClassRecord

/-- What is known about a method. -/
structure MethodRecord where
  name : String
  owner : Option ClassId := none
  parameters : List Parameter := []
  /-- The method that this one overrides. -/
  overridden : Option MethodId := none
  /-- Classes of the values that the method may return, in order of discovery. -/
  returns : List ClassId := []
  deriving Inhabited

namespace MethodRecord

/-- The method with one more return class; a known one is not repeated. -/
def addReturn (method : MethodRecord) (id : ClassId) : MethodRecord :=
  if id ∈ method.returns then method else { method with returns := method.returns ++ [id] }

/-- The method under another name and owner. The signature and the overridden method carry over, and
so do the known return classes, which are added one by one. -/
def aliased (method : MethodRecord) (name : String) (owner : Option ClassId) : MethodRecord :=
  method.returns.foldl addReturn { method with name := name, owner := owner, returns := [] }

theorem addReturn_eq (method : MethodRecord) (id : ClassId) :
    method.addReturn id = { method with
      returns := if id ∈ method.returns then method.returns else method.returns ++ [id] } := by
  unfold addReturn
  split <;> rfl

theorem mem_returns_addReturn {method : MethodRecord} {id other : ClassId}
    (h : other ∈ (method.addReturn id).returns) : other ∈ method.returns ∨ other = id := by
  unfold addReturn at h
  split at h
  · exact Or.inl h
  · simpa using h

/-- Adding return classes alters nothing else, and no others are added. -/
theorem exists_foldl_addReturn (ids : List ClassId) (method : MethodRecord) :
    ∃ returns, ids.foldl addReturn method = { method with returns := returns } ∧
      ∀ id ∈ returns, id ∈ method.returns ∨ id ∈ ids := by
  induction ids generalizing method with
  | nil => exact ⟨method.returns, rfl, fun _ hid => Or.inl hid⟩
  | cons first rest ih =>
    obtain ⟨returns, hfold, hreturns⟩ := ih (method.addReturn first)
    refine ⟨returns, by rw [List.foldl_cons, hfold, addReturn_eq], fun id hid => ?_⟩
    rcases hreturns id hid with hknown | hlater
    · rcases mem_returns_addReturn hknown with hold | rfl
      · exact Or.inl hold
      · exact Or.inr List.mem_cons_self
    · exact Or.inr (List.mem_cons_of_mem _ hlater)

/-- An alias has all of its fields from the method or from its definition. -/
theorem exists_aliased (method : MethodRecord) (name : String) (owner : Option ClassId) :
    ∃ returns, method.aliased name owner =
        { method with name := name, owner := owner, returns := returns } ∧
      ∀ id ∈ returns, id ∈ method.returns := by
  obtain ⟨returns, hfold, hreturns⟩ := exists_foldl_addReturn method.returns
    { method with name := name, owner := owner, returns := [] }
  exact ⟨returns, hfold, fun id hid => (hreturns id hid).resolve_left List.not_mem_nil⟩

section Aliased

variable (method : MethodRecord) (name : String) (owner : Option ClassId)

theorem name_aliased : (method.aliased name owner).name = name := by
  obtain ⟨returns, hrecord, -⟩ := method.exists_aliased name owner
  rw [hrecord]

theorem owner_aliased : (method.aliased name owner).owner = owner := by
  obtain ⟨returns, hrecord, -⟩ := method.exists_aliased name owner
  rw [hrecord]

variable {method name owner}

theorem mem_returns_of_aliased {id : ClassId} (h : id ∈ (method.aliased name owner).returns) :
    id ∈ method.returns := by
  obtain ⟨returns, hrecord, hreturns⟩ := method.exists_aliased name owner
  rw [hrecord] at h
  exact hreturns id h

end Aliased

/-- The name and the parameters. -/
def signature (method : MethodRecord) : String :=
  method.name ++ "(" ++ ", ".intercalate (method.parameters.map Parameter.text) ++ ")"

/-- A method in full, with the names of its owner and of the method it overrides. -/
def describe (method : MethodRecord) (owner overridden : Option String) : String :=
  "MethodObject \x7b name: " ++ Text.quote method.name ++
    ", parameters: [" ++ ", ".intercalate (method.parameters.map Parameter.describe) ++
    "], owner: " ++ Text.quote (owner.getD "<empty>") ++
    ", super_method: " ++
    (match overridden with
      | some name => "Some(" ++ Text.quote name ++ ")"
      | none => "None") ++
    " \x7d"

end MethodRecord

end ClassIndex
