import ClassIndex.Decimal.Format
import ClassIndex.Text.Quoted

/-!
# Literals

Immediate values of compiled code. A literal has two written forms: `Literal.text`, as a listing
shows it, and `Literal.describe`, which names its kind.
-/

namespace ClassIndex

/-- A value embedded in the code. -/
inductive Literal where
  | symbol (name : String)
  | string (text : String)
  | integer (value : Int64)
  | float (value : Binary64)
  | bool (value : Bool)
  deriving Inhabited

namespace Literal

/-- Equality of literals of one kind; floats compare as numbers, so a NaN differs from itself. -/
def equal : Literal → Literal → Bool
  | symbol a, symbol b => a == b
  | string a, string b => a == b
  | integer a, integer b => a == b
  | float a, float b => a == b
  | bool a, bool b => a == b
  | _, _ => false

instance : BEq Literal := ⟨equal⟩

/-- Symbols and strings both name things in declarations. -/
def name? : Literal → Option String
  | symbol name | string name => some name
  | _ => none

def integer? : Literal → Option Int64
  | integer value => some value
  | _ => none

/-- Floats in a listing are written without an exponent, and whole ones without a point. -/
def listedFloat : NumberFormat where
  positional _ := true
  wholeEnd := ""

/-- Floats in a description always show a point or an exponent; from `10 ^ 16` on and below
`10 ^ -4` they have an exponent. -/
def describedFloat : NumberFormat where
  positional power := -4 ≤ power && power < 16
  wholeEnd := ".0"

/-- A literal as a listing or a signature shows it. -/
def text : Literal → String
  | symbol name => ":" ++ name
  | string text => Text.quote text
  | integer value => toString value.toInt
  | float value => listedFloat.render value
  | bool true => "true"
  | bool false => "false"

/-- A literal with its kind. -/
def describe : Literal → String
  | symbol name => "Symbol(" ++ Text.quote name ++ ")"
  | string text => "String(" ++ Text.quote text ++ ")"
  | integer value => "Integer(" ++ toString value.toInt ++ ")"
  | float value => "Float(" ++ describedFloat.render value ++ ")"
  | bool true => "True"
  | bool false => "False"

end Literal

end ClassIndex
