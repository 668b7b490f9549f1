import ClassIndex.Code.Literal
import ClassIndex.Code.Opcode

/-!
# Instruction sequences

Compiled code comes as a tree: a `Sequence` is a list of instructions, and an operand of an
instruction may be a further sequence, the body of a class, a method or a block. Sequences have
an identity of their own, given by whoever loads them. `Sequence.equal` compares by structure
and disregards it.
-/

namespace ClassIndex

/-- What kind of source a sequence was compiled from. -/
inductive SequenceKind where
  | top | main | classBody | method | block | rescue | ensure | eval
  deriving DecidableEq, Repr, Inhabited

namespace SequenceKind

def name : SequenceKind → String
  | top => "top"
  | main => "main"
  | classBody => "class"
  | method => "method"
  | block => "block"
  | rescue => "rescue"
  | ensure => "ensure"
  | eval => "eval"

/-- Every kind of sequence. -/
def all : List SequenceKind :=
  [top, main, classBody, method, block, rescue, ensure, eval]

def ofName? (name : String) : Option SequenceKind :=
  all.find? fun kind => kind.name == name

end SequenceKind

/-- The identity of a loaded sequence: two sequences with the same number are the same object. -/
structure SequenceId where
  number : Nat
  deriving DecidableEq, Repr, Inhabited

/-- What a call instruction says about the call. -/
structure CallSite where
  /-- The name of the invoked method as compiled. -/
  method : String
  argumentCount : UInt32 := 0
  flags : UInt32 := 0
  deriving DecidableEq, Inhabited

namespace CallSite

/-- What the compiler puts before the names of its own helpers. -/
def coreMark : List Char := "core#".toList

/-- The invoked method without the mark of the compiler's own helpers, so that `core#define_method`
and `define_method` are the same call. -/
def target (site : CallSite) : String :=
  if coreMark.isPrefixOf site.method.toList then
    String.ofList (site.method.toList.drop coreMark.length)
  else
    site.method

end CallSite

/-- A keyword parameter as compiled. -/
inductive Keyword where
  | required (name : String)
  | optional (name : String) (default : Literal)
  deriving BEq, Inhabited

/-- Where the parameters of a body stand in its table of locals. An absent field means that the
body declares no parameter of that kind. -/
structure ParameterLayout where
  /-- How many of the first locals are required parameters. -/
  lead : Option Nat := none
  /-- The defaults of the optional parameters, whose locals follow the required ones. -/
  defaults : Option (List Literal) := none
  /-- The local that takes the remaining arguments. -/
  rest : Option Nat := none
  keywords : Option (List Keyword) := none
  /-- The local that takes the remaining keywords. -/
  keywordRest : Option Nat := none
  deriving BEq, Inhabited

mutual

/-- An operand of an instruction. -/
inductive Operand where
  | nil
  | literal (value : Literal)
  | sequence (body : Sequence)
  | call (site : CallSite)

/-- A single instruction. -/
structure Instruction where
  opcode : Opcode
  operands : List Operand := []

/-- Compiled code with the names it was compiled under. -/
structure Sequence where
  id : SequenceId
  label : String
  kind : SequenceKind
  path : String
  code : List Instruction
  parameters : ParameterLayout
  /-- The names of the local variables, parameters first. -/
  locals : List String

end

instance : Inhabited Operand := ⟨.nil⟩

instance : Inhabited Instruction := ⟨⟨default, []⟩⟩

instance : Inhabited Sequence := ⟨⟨default, "", default, "", [], default, []⟩⟩

/-! ## Structural equality -/

mutual

/-- Equality of operands by structure. -/
def Operand.equal : Operand → Operand → Bool
  | .nil, .nil => true
  | .literal a, .literal b => a == b
  | .sequence a, .sequence b => a.equal b
  | .call a, .call b => a == b
  | _, _ => false

/-- Equality of operand lists, position by position. -/
def Operand.equalLists : List Operand → List Operand → Bool
  | [], [] => true
  | a :: as, b :: bs => a.equal b && Operand.equalLists as bs
  | _, _ => false

/-- Equality of instructions by structure. -/
def Instruction.equal : Instruction → Instruction → Bool
  | ⟨opcode₁, operands₁⟩, ⟨opcode₂, operands₂⟩ =>
    opcode₁ == opcode₂ && Operand.equalLists operands₁ operands₂

/-- Equality of code, position by position. -/
def Instruction.equalLists : List Instruction → List Instruction → Bool
  | [], [] => true
  | a :: as, b :: bs => a.equal b && Instruction.equalLists as bs
  | _, _ => false

/-- Equality of sequences by structure: everything but the identity counts. -/
def Sequence.equal : Sequence → Sequence → Bool
  | ⟨_, label₁, kind₁, path₁, code₁, parameters₁, locals₁⟩,
    ⟨_, label₂, kind₂, path₂, code₂, parameters₂, locals₂⟩ =>
    label₁ == label₂ && kind₁ == kind₂ && path₁ == path₂ &&
      Instruction.equalLists code₁ code₂ && parameters₁ == parameters₂ && locals₁ == locals₂

end

instance : BEq Sequence := ⟨Sequence.equal⟩

/-! ## Nested sequences -/

namespace Operand

/-- The sequence that an operand holds. -/
def sequence? : Operand → Option Sequence
  | sequence body => some body
  | _ => none

/-- The call that an operand describes. -/
def call? : Operand → Option CallSite
  | call site => some site
  | _ => none

end Operand

mutual

/-- The sequences below an operand, an outer one before those inside it. -/
def Operand.unfold : Operand → List Sequence
  | .sequence body => body.unfold
  | _ => []

/-- The sequences below some operands, in order. -/
def Operand.unfoldList : List Operand → List Sequence
  | [] => []
  | operand :: rest => operand.unfold ++ Operand.unfoldList rest

/-- The sequences below an instruction. -/
def Instruction.unfold : Instruction → List Sequence
  | ⟨_, operands⟩ => Operand.unfoldList operands

/-- The sequences below some code, in order. -/
def Instruction.unfoldList : List Instruction → List Sequence
  | [] => []
  | instruction :: rest => instruction.unfold ++ Instruction.unfoldList rest

/-- A sequence and all sequences in it, in pre-order and once for each time they occur. -/
def Sequence.unfold : Sequence → List Sequence
  | s@⟨_, _, _, _, code, _, _⟩ => s :: Instruction.unfoldList code

end

end ClassIndex
