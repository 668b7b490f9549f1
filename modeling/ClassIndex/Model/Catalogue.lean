import ClassIndex.Model.Identity
import Std.Data.TreeMap

/-!
# The catalogue of registered classes

A `Catalogue` lists the discovered classes in order of discovery and finds them by qualified name.
-/

namespace ClassIndex

/-- The registered classes. -/
structure Catalogue where
  /-- The classes in order of registration. -/
  order : List ClassId := []
  /-- The class under each registered name. -/
  byName : Std.TreeMap String ClassId := {}
  deriving Inhabited

namespace Catalogue

/-- The class registered under a name. -/
def find? (catalogue : Catalogue) (name : String) : Option ClassId :=
  catalogue.byName[name]?

/-- Registers a class under a name that is not taken. -/
def register (catalogue : Catalogue) (name : String) (id : ClassId) : Catalogue where
  order := catalogue.order ++ [id]
  byName := catalogue.byName.insert name id

def size (catalogue : Catalogue) : Nat :=
  catalogue.order.length

def isEmpty (catalogue : Catalogue) : Bool :=
  catalogue.order.isEmpty

end Catalogue

end ClassIndex
