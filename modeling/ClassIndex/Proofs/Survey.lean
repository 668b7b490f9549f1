import ClassIndex.Proofs.Programs
import ClassIndex.Proofs.Signatures
import ClassIndex.Proofs.Tables
import Mathlib.Logic.Function.Basic

/-!
# Surveys

A `Survey` is what declarations say, told by names alone: which classes are mentioned and in which
order, what the first mention of each says about it, and what is declared in it and in the singleton
classes above it.  `Declaration.survey` reads it off a program directly.  There are no identities,
no stacks and no index here, only names and lists.
-/

namespace ClassIndex

/-- Where a class stands: the class of a qualified name, or the singleton class some levels above
it. -/
structure ClassPath where
  name : String
  level : Nat
  deriving DecidableEq, Repr, Inhabited

namespace ClassPath

/-- The class of a name. -/
def named (name : String) : ClassPath :=
  ⟨name, 0⟩

/-- The singleton class one level up. -/
def singleton (path : ClassPath) : ClassPath :=
  ⟨path.name, path.level + 1⟩

/-- The class that a singleton class belongs to. -/
def base? : ClassPath → Option ClassPath
  | ⟨_, 0⟩ => none
  | ⟨name, level + 1⟩ => some ⟨name, level⟩

/-- The class that the methods on one side of a class belong to. -/
def methodOwner (side : MethodSide) (path : ClassPath) : ClassPath :=
  match side with
  | .instanceSide => path
  | .classSide => path.singleton

/-- The name of the singleton class some levels above a class. -/
def towerName (name : String) : Nat → String
  | 0 => name
  | level + 1 => "#<Class:" ++ towerName name level ++ ">"

/-- The name that a class is shown under. -/
def fullname (path : ClassPath) : String :=
  towerName path.name path.level

/-- The name of a constant inside a class, or of one of the top level. -/
def qualify (scope : Option ClassPath) (name : String) : String :=
  match scope with
  | some path => path.fullname ++ "::" ++ name
  | none => name

theorem named_injective {name other : String} (h : named name = named other) : name = other :=
  congrArg ClassPath.name h

theorem singleton_ne_named (path : ClassPath) (name : String) : path.singleton ≠ named name := by
  intro h
  cases congrArg ClassPath.level h

theorem singleton_ne (path : ClassPath) : path.singleton ≠ path :=
  fun h => Nat.succ_ne_self _ (congrArg ClassPath.level h)

theorem singleton_injective {path other : ClassPath} (h : path.singleton = other.singleton) :
    path = other := by
  rcases path with ⟨name, level⟩
  rcases other with ⟨name', level'⟩
  cases h
  rfl

end ClassPath

/-- What the first mention of a class says about it. -/
structure Heading where
  kind : ClassKind
  superclass : Option String := none
  enclosing : Option ClassPath := none

/-- What is declared in a class. -/
structure Members where
  /-- Names and signatures, in order of the first definition of each name. -/
  instanceMethods : List (String × List Parameter) := []
  classMethods : List (String × List Parameter) := []
  /-- The modules mixed in, in order of declaration. -/
  mixins : List (MixinKind × String) := []

namespace Members

/-- The members with one more method. The last definition of a name counts, in the place of the
first. -/
def addMethod (side : MethodSide) (name : String) (parameters : List Parameter)
    (members : Members) : Members :=
  match side with
  | .instanceSide =>
    { members with instanceMethods := upsert name parameters members.instanceMethods }
  | .classSide => { members with classMethods := upsert name parameters members.classMethods }

def addMixin (kind : MixinKind) (source : String) (members : Members) : Members :=
  { members with mixins := members.mixins ++ [(kind, source)] }

end Members

/-- What declarations say, by name. -/
structure Survey where
  /-- The qualified names of the classes, in order of first mention. -/
  names : List String := []
  /-- What the first mention of a name says. -/
  heading : String → Heading := fun _ => ⟨.ordinary, none, none⟩
  /-- What is declared in a class, if it was mentioned, and in a singleton class, if one was asked
  for. -/
  members : ClassPath → Option Members := fun _ => none

namespace Survey

/-- What is known about a class besides its members. -/
def headingAt (survey : Survey) : ClassPath → Heading
  | ⟨name, 0⟩ => survey.heading name
  | ⟨_, _ + 1⟩ => ⟨.singleton, none, none⟩

/-- The first mention of a name counts, and every later one changes nothing. -/
def mention (name : String) (heading : Heading) (survey : Survey) : Survey :=
  if name ∈ survey.names then survey
  else
    { names := survey.names ++ [name]
      heading := Function.update survey.heading name heading
      members := Function.update survey.members (.named name) (some {}) }

/-- A constant that is only referred to. -/
def refer (name : String) (survey : Survey) : Survey :=
  survey.mention name ⟨.ordinary, none, none⟩

def openSingleton (path : ClassPath) (survey : Survey) : Survey :=
  match survey.members path.singleton with
  | some _ => survey
  | none => { survey with members := Function.update survey.members path.singleton (some {}) }

def amend (path : ClassPath) (change : Members → Members) (survey : Survey) : Survey :=
  { survey with members := Function.update survey.members path ((survey.members path).map change) }

/-- Adds a method. Methods of a class itself belong to its singleton class. -/
def addMethod (path : ClassPath) (side : MethodSide) (name : String) (parameters : List Parameter)
    (survey : Survey) : Survey :=
  let opened := match side with
    | .instanceSide => survey
    | .classSide => survey.openSingleton path
  opened.amend path (·.addMethod side name parameters)

end Survey

namespace Declaration

mutual

/-- What is known after a declaration, in the scope of a class or of none. -/
def survey (scope : Option ClassPath) : Declaration → Survey → Survey
  | classDef name superclass body, known =>
    let fullname := ClassPath.qualify scope name
    let referred := superclass.elim known known.refer
    surveyAll (some (.named fullname)) body
      (referred.mention fullname ⟨.ordinary, superclass, scope⟩)
  | moduleDef name body, known =>
    let fullname := ClassPath.qualify scope name
    surveyAll (some (.named fullname)) body (known.mention fullname ⟨.modular, none, scope⟩)
  | singletonDef body, known =>
    match scope with
    | some path => surveyAll (some path.singleton) body (known.openSingleton path)
    | none => surveyAll none body known
  | methodDef side name locals parameters, known =>
    match scope with
    | some path => known.addMethod path side name (parameters.assign locals)
    | none => known
  | mixinOf kind source, known =>
    match scope with
    | some path => (known.refer source).amend path (·.addMixin kind source)
    | none => known.refer source

def surveyAll (scope : Option ClassPath) : List Declaration → Survey → Survey
  | [], known => known
  | declaration :: rest, known => surveyAll scope rest (declaration.survey scope known)

end

end Declaration

end ClassIndex
