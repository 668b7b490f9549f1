/-!
# Identities of classes and methods

Classes and methods are told apart by identity and not by name. An identity is the position of a
record in the model that holds it, so what is new has a new identity.
-/

namespace ClassIndex

/-- The identity of a class. -/
structure ClassId where
  index : Nat
  deriving DecidableEq, Repr, Inhabited

/-- The identity of a method. -/
structure MethodId where
  index : Nat
  deriving DecidableEq, Repr, Inhabited

/-- Whether a method belongs to the instances of a class or to the class itself. -/
inductive MethodSide where
  | instanceSide
  | classSide
  deriving DecidableEq, Repr, Inhabited

/-- How a module is mixed into a class. -/
inductive MixinKind where
  | included
  | extended
  | prepended
  deriving DecidableEq, Repr, Inhabited

namespace MixinKind

/-- The word of the declaration. -/
def name : MixinKind → String
  | included => "include"
  | extended => "extend"
  | prepended => "prepend"

/-- Every kind of mixin. -/
def all : List MixinKind :=
  [included, extended, prepended]

def ofName? (name : String) : Option MixinKind :=
  all.find? fun kind => kind.name == name

end MixinKind

end ClassIndex
