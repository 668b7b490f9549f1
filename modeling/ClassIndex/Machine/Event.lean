import ClassIndex.Code.Listing
import ClassIndex.Machine.Error
import ClassIndex.Model.Identity

/-!
# Events

What the machine and the processors report on their way. An event is kept as a value and only
written out when somebody asks for its message.
-/

namespace ClassIndex

/-- How important an event is. -/
inductive Level where
  | debug
  | info
  | error
  deriving DecidableEq, Repr, Inhabited

namespace Level

def name : Level → String
  | debug => "DEBUG"
  | info => "INFO"
  | error => "ERROR"

end Level

/-- Something that happened during indexing. -/
inductive Event where
  /-- A sequence is entered. -/
  | entered (body : Sequence)
  /-- An instruction without a meaning for indexing is passed over. -/
  | skipped (opcode : Opcode)
  /-- An instruction is carried out. -/
  | running (instruction : Instruction)
  /-- A call declares nothing. -/
  | ignoredCall (method : String)
  /-- No processor takes an instruction. -/
  | noProcessor (opcode : Opcode) (qualifier : Option String)
  /-- A class or module definition was seen. -/
  | foundClass (fullname : String)
  /-- The body of a singleton class has nothing that it could belong to. -/
  | skippedSingleton (base : String)
  /-- A declaration was made on something that is not a class. -/
  | skippedReceiver (action receiver : String)
  /-- A method definition was seen. -/
  | foundMethod (side : MethodSide) (method className : String)
  /-- Something that is not a class was mixed in. -/
  | skippedMixin (kind : MixinKind) (source : String)
  /-- A mixin was seen. -/
  | foundMixin (kind : MixinKind) (source className : String)
  /-- A sequence was indexed to its end. -/
  | indexed (body : Sequence)
  /-- The indexing of a sequence failed. -/
  | failed (body : Sequence) (error : RunError)
  deriving Inhabited

namespace Event

def level : Event → Level
  | entered _ | foundClass _ | foundMethod _ _ _ | foundMixin _ _ _ | indexed _ => .info
  | skipped _ | running _ | ignoredCall _ | noProcessor _ _ | skippedSingleton _
  | skippedReceiver _ _ | skippedMixin _ _ => .debug
  | failed _ _ => .error

/-- A text between backquotes. -/
def backquote (text : String) : String :=
  "`" ++ text ++ "`"

def message : Event → String
  | entered body =>
    "Indexing iseq " ++ backquote body.label ++ ", type: " ++ backquote body.kind.name ++
      ", path: " ++ backquote body.path
  | skipped opcode => "Skip instruction " ++ backquote opcode.name
  | running instruction => "Running instruction " ++ backquote instruction.text
  | ignoredCall method => "Method " ++ backquote method ++ " not handled."
  | noProcessor opcode none => "No processor for " ++ backquote opcode.name
  | noProcessor opcode (some qualifier) =>
    "No processor for " ++ backquote opcode.name ++ " (" ++ qualifier ++ ")"
  | foundClass fullname => "Detect class " ++ backquote fullname
  | skippedSingleton base => "Skip singleton class of non-class " ++ backquote base
  | skippedReceiver action receiver =>
    "Skip " ++ backquote action ++ " on non-class receiver " ++ backquote receiver
  | foundMethod .instanceSide method className =>
    "Detect instance method " ++ backquote method ++ " of class " ++ backquote className
  | foundMethod .classSide method className =>
    "Detect class method " ++ backquote method ++ " of class " ++ backquote className
  | skippedMixin kind source => "Skip " ++ kind.name ++ " of non-class " ++ backquote source
  | foundMixin kind source className =>
    "Detect " ++ kind.name ++ " " ++ backquote source ++ " in class " ++ backquote className
  | indexed body => "Indexed " ++ backquote body.label ++ " (" ++ body.path ++ ")"
  | failed body error =>
    "Indexing failed for " ++ backquote body.label ++ " (" ++ body.path ++ "): " ++ error.message

end Event

end ClassIndex
