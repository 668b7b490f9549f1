import ClassIndex.Code.Sequence

/-!
# Parameters

`Sequence.signature` reads the parameters of a body off its layout and its table of locals:
required, optional, rest, keywords, keyword rest. A position past the end of the table gives no
parameter.
-/

namespace ClassIndex

/-- One entry of a method's signature. -/
inductive Parameter where
  | required (name : String)
  | optional (name : String) (default : Literal)
  | rest (name : String)
  | keywordRequired (name : String)
  | keywordOptional (name : String) (default : Literal)
  | keywordRest (name : String)
  deriving Inhabited

namespace Parameter

def name : Parameter → String
  | required name | optional name _ | rest name
  | keywordRequired name | keywordOptional name _ | keywordRest name => name

def default? : Parameter → Option Literal
  | optional _ value | keywordOptional _ value => some value
  | _ => none

/-- A parameter as a declaration writes it. -/
def text : Parameter → String
  | required name => name
  | optional name default => name ++ " = " ++ default.text
  | rest name => "*" ++ name
  | keywordRequired name => name ++ ":"
  | keywordOptional name default => name ++ ": " ++ default.text
  | keywordRest name => "**" ++ name

/-- A parameter with its kind. -/
def describe : Parameter → String
  | required name => "Required(" ++ Text.quote name ++ ")"
  | optional name default => "Optional(" ++ Text.quote name ++ ", " ++ default.describe ++ ")"
  | rest name => "Rest(" ++ Text.quote name ++ ")"
  | keywordRequired name => "KeywordRequired(" ++ Text.quote name ++ ")"
  | keywordOptional name default =>
    "KeywordOptional(" ++ Text.quote name ++ ", " ++ default.describe ++ ")"
  | keywordRest name => "KeywordRest(" ++ Text.quote name ++ ")"

/-- The parameter that a compiled keyword stands for. -/
def ofKeyword : Keyword → Parameter
  | .required name => keywordRequired name
  | .optional name default => keywordOptional name default

end Parameter

namespace Sequence

/-- The required parameters: the first locals, as many as the layout says. -/
def requiredParameters (s : Sequence) : List Parameter :=
  match s.parameters.lead with
  | some count => (s.locals.take count).map .required
  | none => []

/-- The optional parameters: each default belongs to the local at its own place after the
required ones. -/
def optionalParameters (s : Sequence) : List Parameter :=
  let first := s.parameters.lead.getD 0
  (s.parameters.defaults.getD []).zipIdx.filterMap fun (default, place) =>
    s.locals[first + place]?.map fun name => .optional name default

/-- The local at an optional position, if both are there. -/
def localAt? (s : Sequence) (position : Option Nat) : Option String :=
  position.bind fun place => s.locals[place]?

/-- The parameters of a body, in the order of a declaration. -/
def signature (s : Sequence) : List Parameter :=
  s.requiredParameters ++ s.optionalParameters ++
    ((s.localAt? s.parameters.rest).map .rest).toList ++
    (s.parameters.keywords.getD []).map .ofKeyword ++
    ((s.localAt? s.parameters.keywordRest).map .keywordRest).toList

end Sequence

end ClassIndex
