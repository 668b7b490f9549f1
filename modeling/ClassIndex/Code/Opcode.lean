/-!
# Instruction tags

The instructions that compiled code may hold. Only a handful of them declare something; the rest
are kept so that code can be shown in full.
-/

namespace ClassIndex

/-- The tag of an instruction. -/
inductive Opcode where
  | nop | getLocal | setLocal | getInstanceVariable | setInstanceVariable | getGlobal | setGlobal
  | putNil | putSelf | putObject | putSpecialObject | putString | putIseq | concatStrings
  | newArray | dupArray | newHash | dup | dupN | swap | topN | setN | adjustStack | pop | defined
  | checkMatch | checkKeyword | getConstant | setConstant | defineClass | send
  | optSendWithoutBlock | invokeSuper | invokeBlock | leave | throw | jump | branchIf
  | branchUnless | branchNil | getInlineCache | setInlineCache | optPlus | optMinus | optMult
  | optDiv | optEq | optLt | optAref | optAset | optLength | optNot | trace
  deriving DecidableEq, Repr, Inhabited

namespace Opcode

/-- The name of an instruction in compiled code. -/
def name : Opcode → String
  | .nop => "nop"
  | .getLocal => "getlocal"
  | .setLocal => "setlocal"
  | .getInstanceVariable => "getinstancevariable"
  | .setInstanceVariable => "setinstancevariable"
  | .getGlobal => "getglobal"
  | .setGlobal => "setglobal"
  | .putNil => "putnil"
  | .putSelf => "putself"
  | .putObject => "putobject"
  | .putSpecialObject => "putspecialobject"
  | .putString => "putstring"
  | .putIseq => "putiseq"
  | .concatStrings => "concatstrings"
  | .newArray => "newarray"
  | .dupArray => "duparray"
  | .newHash => "newhash"
  | .dup => "dup"
  | .dupN => "dupn"
  | .swap => "swap"
  | .topN => "topn"
  | .setN => "setn"
  | .adjustStack => "adjuststack"
  | .pop => "pop"
  | .defined => "defined"
  | .checkMatch => "checkmatch"
  | .checkKeyword => "checkkeyword"
  | .getConstant => "getconstant"
  | .setConstant => "setconstant"
  | .defineClass => "defineclass"
  | .send => "send"
  | .optSendWithoutBlock => "opt_send_without_block"
  | .invokeSuper => "invokesuper"
  | .invokeBlock => "invokeblock"
  | .leave => "leave"
  | .throw => "throw"
  | .jump => "jump"
  | .branchIf => "branchif"
  | .branchUnless => "branchunless"
  | .branchNil => "branchnil"
  | .getInlineCache => "getinlinecache"
  | .setInlineCache => "setinlinecache"
  | .optPlus => "opt_plus"
  | .optMinus => "opt_minus"
  | .optMult => "opt_mult"
  | .optDiv => "opt_div"
  | .optEq => "opt_eq"
  | .optLt => "opt_lt"
  | .optAref => "opt_aref"
  | .optAset => "opt_aset"
  | .optLength => "opt_length"
  | .optNot => "opt_not"
  | .trace => "trace"

/-- Every tag, in the order of its number. -/
def all : List Opcode :=
  [.nop, .getLocal, .setLocal, .getInstanceVariable, .setInstanceVariable, .getGlobal,
   .setGlobal, .putNil, .putSelf, .putObject, .putSpecialObject, .putString, .putIseq,
   .concatStrings, .newArray, .dupArray, .newHash, .dup, .dupN, .swap, .topN, .setN,
   .adjustStack, .pop, .defined, .checkMatch, .checkKeyword, .getConstant, .setConstant,
   .defineClass, .send, .optSendWithoutBlock, .invokeSuper, .invokeBlock, .leave, .throw, .jump,
   .branchIf, .branchUnless, .branchNil, .getInlineCache, .setInlineCache, .optPlus, .optMinus,
   .optMult, .optDiv, .optEq, .optLt, .optAref, .optAset, .optLength, .optNot, .trace]

/-- The position of a tag in `all`. -/
def number (op : Opcode) : Nat :=
  all.idxOf op

/-- The tag with a given name. -/
def ofName? (name : String) : Option Opcode :=
  all.find? fun op => op.name == name

/-- Tags are compared by their numbers, as keys of maps. -/
instance : Ord Opcode where
  compare := compareOn Opcode.ctorIdx

instance : Std.TransOrd Opcode :=
  inferInstanceAs (Std.TransCmp (compareOn Opcode.ctorIdx))

instance : Std.LawfulEqOrd Opcode where
  compare_self {opcode} := Std.compare_self (a := opcode.ctorIdx)
  eq_of_compare {first second} h := by
    have hnumber : first.ctorIdx = second.ctorIdx := Std.LawfulEqOrd.eq_of_compare h
    rw [← ofNat_ctorIdx first, hnumber, ofNat_ctorIdx]

end Opcode

end ClassIndex
