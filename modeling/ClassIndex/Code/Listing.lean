import ClassIndex.Code.Sequence

/-!
# Listings

`Sequence.listing` shows a sequence as text: one block of lines for the sequence itself, and then
one for each sequence inside it, in pre-order. A block has a header, the locals if there are any,
and the instructions numbered from zero.
-/

namespace ClassIndex

/-- An operand in a listing. A nested sequence is only named; its code has a block of its own. -/
def Operand.text : Operand → String
  | nil => "nil"
  | literal value => value.text
  | sequence body => "<iseq:" ++ body.label ++ ">"
  | call site =>
    "<calldata!mid:" ++ site.method ++ ", argc:" ++ toString site.argumentCount.toNat ++ ">"

/-- An instruction with its operands, separated by commas. -/
def Instruction.text (instruction : Instruction) : String :=
  match instruction.operands with
  | [] => instruction.opcode.name
  | operands =>
    instruction.opcode.name ++ " " ++ ", ".intercalate (operands.map Operand.text)

namespace Sequence

/-- The position of an instruction, in at least four digits. -/
def paddedPosition (position : Nat) : String :=
  let digits := Nat.toDigits 10 position
  String.ofList (List.replicate (4 - digits.length) '0' ++ digits)

/-- The first line of a block. -/
def header (s : Sequence) : String :=
  "== disasm: <iseq:" ++ s.label ++ "@" ++ s.path ++ "> (" ++ s.kind.name ++ ")"

/-- The line that names the locals; a sequence without locals has none. -/
def localsLines (s : Sequence) : List String :=
  if s.locals.isEmpty then [] else ["local table: [" ++ ", ".intercalate s.locals ++ "]"]

/-- One line for each instruction. -/
def codeLines (s : Sequence) : List String :=
  s.code.zipIdx.map fun (instruction, position) =>
    paddedPosition position ++ " " ++ instruction.text

/-- The lines for a sequence without those inside it. -/
def blockLines (s : Sequence) : List String :=
  s.header :: (s.localsLines ++ s.codeLines)

/-- A sequence and everything in it as text; each line is ended. -/
def listing (s : Sequence) : String :=
  String.join ((s.unfold.flatMap blockLines).map fun line => line ++ "\n")

/-- The calls of a sequence's own instructions, in order. -/
def calls (s : Sequence) : List CallSite :=
  s.code.flatMap fun instruction => instruction.operands.filterMap Operand.call?

end Sequence

end ClassIndex
