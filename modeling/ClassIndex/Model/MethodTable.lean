import ClassIndex.Model.Identity
import Std.Data.TreeMap

/-!
# Method tables

A `MethodTable` holds methods by name, in the order in which the names were first defined. Defining
a name again replaces its entry in place. The entries are found through an index of positions.
-/

namespace ClassIndex

/-- The methods of a class, by name and in order of definition. -/
structure MethodTable where
  /-- Names and methods, in order of the first definition of each name. -/
  entries : Array (String × MethodId) := #[]
  /-- The position of each name among the entries. -/
  positions : Std.TreeMap String Nat := {}
  deriving Inhabited

namespace MethodTable

/-- Enters a method under a name. A known name keeps its place. -/
def insert (table : MethodTable) (name : String) (method : MethodId) : MethodTable :=
  match table.positions[name]? with
  | some position =>
    { table with entries := table.entries.setIfInBounds position (name, method) }
  | none =>
    { entries := table.entries.push (name, method)
      positions := table.positions.insert name table.entries.size }

/-- The method under a name. -/
def get? (table : MethodTable) (name : String) : Option MethodId :=
  table.positions[name]?.bind fun position => table.entries[position]?.map (·.2)

def size (table : MethodTable) : Nat :=
  table.entries.size

def isEmpty (table : MethodTable) : Bool :=
  table.entries.isEmpty

/-- The names, in order of definition. -/
def names (table : MethodTable) : List String :=
  table.entries.toList.map (·.1)

/-- The methods, in order of definition of their names. -/
def methods (table : MethodTable) : List MethodId :=
  table.entries.toList.map (·.2)

end MethodTable

end ClassIndex
