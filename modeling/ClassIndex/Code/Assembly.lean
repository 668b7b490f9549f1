import ClassIndex.Code.ClassFlags
import ClassIndex.Code.Sequence

/-!
# Assembling sequences

Sequences are written down one instruction at a time, starting from `Sequence.start`. Each function
below yields the sequence with one more instruction at its end.
-/

namespace ClassIndex

namespace Sequence

/-- A sequence without code. It has the number zero until it is loaded under another one. -/
def start (label : String) (kind : SequenceKind) : Sequence where
  id := ⟨0⟩
  label := label
  kind := kind
  path := "<compiled>"
  code := []
  parameters := {}
  locals := []

/-- The sequence under another path. -/
def withPath (s : Sequence) (path : String) : Sequence :=
  { s with path := path }

/-- The sequence with another table of locals. -/
def withLocals (s : Sequence) (names : List String) : Sequence :=
  { s with locals := names }

/-- The sequence with another parameter layout. -/
def withParameters (s : Sequence) (parameters : ParameterLayout) : Sequence :=
  { s with parameters := parameters }

/-- The sequence with one more instruction at its end. -/
def emit (s : Sequence) (opcode : Opcode) (operands : List Operand) : Sequence :=
  { s with code := s.code ++ [⟨opcode, operands⟩] }

def putNil (s : Sequence) : Sequence :=
  s.emit .putNil []

def putSelf (s : Sequence) : Sequence :=
  s.emit .putSelf []

def putLiteral (s : Sequence) (value : Literal) : Sequence :=
  s.emit .putObject [.literal value]

def putSymbol (s : Sequence) (name : String) : Sequence :=
  s.putLiteral (.symbol name)

/-- Pushes the object of a given kind: 1 is the root scope and 3 the current one. -/
def putSpecial (s : Sequence) (kind : Int64) : Sequence :=
  s.emit .putSpecialObject [.literal (.integer kind)]

def putBody (s body : Sequence) : Sequence :=
  s.emit .putIseq [.sequence body]

def pop (s : Sequence) : Sequence :=
  s.emit .pop []

def leave (s : Sequence) : Sequence :=
  s.emit .leave []

/-- Reads a constant in the namespace on top of the stack. -/
def getConstant (s : Sequence) (name : String) : Sequence :=
  s.emit .getConstant [.literal (.symbol name)]

/-- Defines a class from the superclass on top of the stack and the enclosing class below it. -/
def defineClass (s : Sequence) (name : String) (body : Sequence) (flags : ClassFlags) : Sequence :=
  s.emit .defineClass
    [.literal (.symbol name), .sequence body,
      .literal (.integer (Int64.ofInt flags.bits.toNat))]

/-- A call whose arguments all stand on the stack. -/
def call (s : Sequence) (method : String) (argumentCount : UInt32) : Sequence :=
  s.emit .optSendWithoutBlock [.call ⟨method, argumentCount, 0⟩, .nil]

/-- A call that may come with a block. -/
def callWithBlock (s : Sequence) (method : String) (argumentCount : UInt32)
    (block : Option Sequence) : Sequence :=
  s.emit .send [.call ⟨method, argumentCount, 0⟩, .nil, (block.map .sequence).getD .nil]

def getInlineCache (s : Sequence) : Sequence :=
  s.emit .getInlineCache [.nil, .nil]

def setInlineCache (s : Sequence) : Sequence :=
  s.emit .setInlineCache [.nil]

end Sequence

end ClassIndex
