import ClassIndex.Model.Basic

/-!
# Values of the machine

What the machine keeps on its stacks while it follows declarations. Nothing here is a value of the
program that is indexed.
-/

namespace ClassIndex

/-- A value on a stack of the machine. -/
inductive Value where
  | nil
  | literal (value : Literal)
  | classRef (id : ClassId)
  | methodRef (id : MethodId)
  | sequence (body : Sequence)
  deriving Inhabited

namespace Value

/-- Literals compare by value; classes, methods and sequences by identity. -/
def equal : Value → Value → Bool
  | nil, nil => true
  | literal a, literal b => a == b
  | classRef a, classRef b => a == b
  | methodRef a, methodRef b => a == b
  | sequence a, sequence b => a.id == b.id
  | _, _ => false

instance : BEq Value := ⟨equal⟩

def isNil : Value → Bool
  | nil => true
  | _ => false

def class? : Value → Option ClassId
  | classRef id => some id
  | _ => none

def method? : Value → Option MethodId
  | methodRef id => some id
  | _ => none

def sequence? : Value → Option Sequence
  | sequence body => some body
  | _ => none

def name? : Value → Option String
  | literal value => value.name?
  | _ => none

def integer? : Value → Option Int64
  | literal value => value.integer?
  | _ => none

/-- The class, or nil if there is none. -/
def ofClass? : Option ClassId → Value
  | some id => classRef id
  | none => nil

/-- The method, or nil if there is none. -/
def ofMethod? : Option MethodId → Value
  | some id => methodRef id
  | none => nil

/-- The sequence, or nil if there is none. -/
def ofSequence? : Option Sequence → Value
  | some body => sequence body
  | none => nil

/-- What sort of value this is, in the words of an error message. -/
def typeName : Value → String
  | nil => "nil"
  | literal _ => "literal"
  | classRef _ => "class"
  | methodRef _ => "method"
  | sequence _ => "sequence"

/-- A value as text, with the names that the model gives to classes and methods. -/
def text (model : Model) : Value → String
  | nil => "nil"
  | literal value => value.text
  | classRef id => "ClassRef(" ++ model.fullname id ++ ")"
  | methodRef id => "Method(" ++ (model.methodAt id).name ++ ")"
  | sequence body => "<iseq:" ++ body.label ++ ">"

end Value

end ClassIndex
