/-!
# Flags of class definitions

The flag word that a class definition carries says what its body belongs to.
-/

namespace ClassIndex

/-- The flag word of a class definition. -/
structure ClassFlags where
  bits : UInt32
  deriving DecidableEq, Inhabited

namespace ClassFlags

/-- No flag is set. -/
def empty : ClassFlags := ⟨0⟩

/-- The body belongs to the singleton class of the enclosing one. -/
def singletonBody : ClassFlags := ⟨1⟩

/-- The definition is that of a module. -/
def moduleBody : ClassFlags := ⟨2⟩

/-- A superclass was written down. -/
def withSuperclass : ClassFlags := ⟨16⟩

/-- Whether some flag of `flag` is set. -/
def has (flags flag : ClassFlags) : Bool :=
  flags.bits &&& flag.bits != 0

end ClassFlags

end ClassIndex
