import ClassIndex.Indexing.Session
import ClassIndex.Program.Demo
import ClassIndex.Proofs.Transitions

/-!
# Programs made of declarations

A program is a nested list of declarations, compiled into a sequence by the idioms of the
demonstration.  `Declaration.enact` evaluates a declaration directly on the class model, in the
scope of a class or of none.  `index_program` says that indexing the compiled program gives the same
model and leaves nil: the stacks of the machine carry every class to where it is needed, and nothing
else remains on them.
-/

namespace ClassIndex

inductive Declaration where
  /-- `class NAME` or `class NAME < SUPER` with a body. -/
  | classDef (name : String) (superclass : Option String) (body : List Declaration)
  /-- `module NAME` with a body. -/
  | moduleDef (name : String) (body : List Declaration)
  /-- `class << self` with a body. -/
  | singletonDef (body : List Declaration)
  /-- `def NAME` for instances, `def self.NAME` for the class itself. -/
  | methodDef (side : MethodSide) (name : String) (locals : List String)
      (parameters : ParameterLayout)
  /-- `include`, `extend` or `prepend` of a constant of the top level. -/
  | mixinOf (kind : MixinKind) (source : String)

namespace Declaration

/-! ## Compilation -/

/-- The body of a method: its locals and parameters count, and it returns nil. -/
def methodBody (name : String) (locals : List String) (parameters : ParameterLayout) : Sequence :=
  (Sequence.start name .method)
    |>.withLocals locals
    |>.withParameters parameters
    |>.putNil
    |>.leave

mutual

/-- The sequence with a declaration at its end. -/
def appendTo (s : Sequence) : Declaration → Sequence
  | classDef name superclass body =>
    let inner := appendAll (.start ("<class:" ++ name ++ ">") .classBody) body
    let flags := if superclass.isSome then .withSuperclass else .empty
    (Demo.appendClass s name superclass inner.putNil flags).pop
  | moduleDef name body =>
    let inner := appendAll (.start ("<module:" ++ name ++ ">") .classBody) body
    (Demo.appendClass s name none inner.putNil .moduleBody).pop
  | singletonDef body =>
    let inner := appendAll (.start "singleton class" .classBody) body
    (s.putSelf.putNil.defineClass "singletonclass" inner.putNil.leave .singletonBody).pop
  | methodDef .instanceSide name locals parameters =>
    (((s.putSymbol name).putBody (methodBody name locals parameters)).call
      "core#define_method" 2).pop
  | methodDef .classSide name locals parameters =>
    (((s.putSelf.putSymbol name).putBody (methodBody name locals parameters)).call
      "core#define_singleton_method" 3).pop
  | mixinOf kind source => (s.putSelf.putNil.getConstant source).call kind.name 1

def appendAll (s : Sequence) : List Declaration → Sequence
  | [] => s
  | declaration :: rest => appendAll (declaration.appendTo s) rest

end

def program (declarations : List Declaration) : Sequence :=
  (appendAll (.start "<main>" .top) declarations).putNil.leave

mutual

/-- How deep the bodies of a declaration nest. -/
def depth : Declaration → Nat
  | classDef _ _ body | moduleDef _ body | singletonDef body => depthAll body + 1
  | methodDef _ _ _ _ => 1
  | mixinOf _ _ => 0

def depthAll : List Declaration → Nat
  | [] => 0
  | declaration :: rest => max declaration.depth (depthAll rest)

end

/-! ## Direct evaluation -/

/-- The constant of the top level that a declaration mentions, registered if it is not known yet. -/
def resolve (name : String) (model : Model) : ClassId × Model :=
  model.defineIn none name .placeholder

/-- The superclass that a declaration mentions, if it mentions one. -/
def resolve? (superclass : Option String) (model : Model) : Option ClassId × Model :=
  match superclass with
  | some name => ((resolve name model).1, (resolve name model).2)
  | none => (none, model)

mutual

/-- What a declaration makes of the model. Methods and mixins without a class around them have no
effect. -/
def enact (scope : Option ClassId) : Declaration → Model → Model
  | classDef name superclass body, model =>
    let (parent, model) := resolve? superclass model
    let (id, model) := model.defineIn scope name fun fullname => .ordinary fullname parent scope
    enactAll (some id) body model
  | moduleDef name body, model =>
    let (id, model) := model.defineIn scope name fun fullname => .modular fullname scope
    enactAll (some id) body model
  | singletonDef body, model =>
    match scope with
    | some id =>
      let (companion, model) := model.companion id
      enactAll (some companion) body model
    | none => enactAll none body model
  | methodDef side name locals parameters, model =>
    match scope with
    | some id => (model.defineMethod side id name (methodBody name locals parameters).signature).2
    | none => model
  | mixinOf kind source, model =>
    let (module, model) := resolve source model
    match scope with
    | some id => model.mixIn kind id module
    | none => model

def enactAll (scope : Option ClassId) : List Declaration → Model → Model
  | [], model => model
  | declaration :: rest, model => enactAll scope rest (declaration.enact scope model)

end

/-! ## The code of declarations -/

def code (declaration : Declaration) : List Instruction :=
  (declaration.appendTo (.start "" .top)).code

theorem code_appendTo (s : Sequence) (declaration : Declaration) :
    (declaration.appendTo s).code = s.code ++ declaration.code := by
  rcases declaration with ⟨name, _ | superclass, body⟩ | ⟨name, body⟩ | body |
    ⟨_ | _, name, locals, parameters⟩ | ⟨kind, source⟩ <;>
  simp [code, appendTo, Demo.appendClass, Sequence.start, Sequence.emit, Sequence.putSelf,
    Sequence.putNil, Sequence.putSpecial, Sequence.putSymbol, Sequence.putLiteral,
    Sequence.putBody, Sequence.getConstant, Sequence.defineClass, Sequence.call, Sequence.pop]

theorem code_appendAll (s : Sequence) (declarations : List Declaration) :
    (appendAll s declarations).code = s.code ++ declarations.flatMap code := by
  induction declarations generalizing s with
  | nil => rw [appendAll, List.flatMap_nil, List.append_nil]
  | cons declaration rest ih =>
    rw [appendAll, ih, code_appendTo, List.append_assoc, List.flatMap_cons]

theorem code_body (label : String) (kind : SequenceKind) (declarations : List Declaration) :
    (appendAll (.start label kind) declarations).putNil.leave.code =
      declarations.flatMap code ++ Machine.bodyEnd := by
  show (appendAll (.start label kind) declarations).code ++ [⟨.putNil, []⟩] ++ [⟨.leave, []⟩] = _
  rw [code_appendAll, List.append_assoc]
  rfl

/-! ## Simulation -/

section Simulation

open Machine

variable {nested : Nested Model} {rest : List Instruction} {memory : Memory} {model : Model}

theorem enters_methodBody {levels : Nat} {name : String} {locals : List String}
    {parameters : ParameterLayout} (method : Value) (model : Model) :
    Enters (runInFrame Declarations.processors (levels + 1)) method
      (methodBody name locals parameters) memory model model :=
  enters_of_goes (Goes.refl _ _)

/-- The definition of a class from its superclass and the class around it, which is dropped once its
body was run. -/
theorem goes_definition {name : String} {body : Sequence} {superclass enclosing entity : Value}
    {between after : Model} (flags : ClassFlags)
    (hdefine : (Declarations.defineClass ⟨Opcode.defineClass.name, [.literal (.symbol name),
      .sequence body, superclass, enclosing,
      .literal (.integer (Int64.ofInt flags.bits.toNat))]⟩).Yields model entity between)
    (hbody : Enters nested entity body memory between after) :
    Goes Declarations.processors nested
      (⟨.defineClass, [.literal (.symbol name), .sequence body,
        .literal (.integer (Int64.ofInt flags.bits.toNat))]⟩ :: ⟨.pop, []⟩ :: rest)
      ⟨(memory.push enclosing).push superclass, model⟩ rest ⟨memory, after⟩ := by
  refine (goes_defineClass rfl ?_ hbody).trans (goes_discard rfl)
  rw [Declarations.dispatch_eq Declarations.find?_defineClass]
  exact hdefine

/-- The constant of the top level with some name takes the place of nil. -/
theorem goes_constant (name : String) :
    Goes Declarations.processors nested (⟨.getConstant, [.literal (.symbol name)]⟩ :: rest)
      ⟨memory.push .nil, model⟩ rest
      ⟨memory.push (.classRef (resolve name model).1), (resolve name model).2⟩ := by
  refine goes_readConstant rfl ?_
  rw [Declarations.dispatch_eq Declarations.find?_getConstant]
  exact Declarations.getConstant_yields _ name model .nil

theorem goes_scope {instruction : Instruction} {scope : Option ClassId}
    (hself : memory.self = .ofClass? scope)
    (h : instruction.command? = some (.ok .pushSelf)) :
    Goes Declarations.processors nested (instruction :: rest) ⟨memory, model⟩ rest
      ⟨memory.push (.ofClass? scope), model⟩ := by
  rw [← hself]
  exact goes_pushSelf h

theorem class?_ofClass? (scope : Option ClassId) : (Value.ofClass? scope).class? = scope := by
  cases scope <;> rfl

/-- The body of a declaration enacts the declarations in it, whatever class it belongs to. -/
def Enacts (nested : Nested Model) (memory : Memory) (label : String)
    (body : List Declaration) : Prop :=
  ∀ (scope : Option ClassId) (model : Model), Enters nested (.ofClass? scope)
    (appendAll (.start label .classBody) body).putNil.leave memory model
    (enactAll scope body model)

section Forms

variable {name : String} {body : List Declaration} {scope : Option ClassId}

/-- The definition of a class or a module enacts its body in the scope of the class. -/
theorem goes_opening {label : String} {record : String → ClassRecord} (flags : ClassFlags)
    (superclass : Option ClassId) (hflags : flags.has .singletonBody = false)
    (hrecord : Declarations.recordFor flags superclass scope = record)
    (hbody : Enacts nested memory label body) :
    Goes Declarations.processors nested
      (⟨.defineClass, [.literal (.symbol name),
        .sequence (appendAll (.start label .classBody) body).putNil.leave,
        .literal (.integer (Int64.ofInt flags.bits.toNat))]⟩ :: ⟨.pop, []⟩ :: rest)
      ⟨(memory.push (.ofClass? scope)).push (.ofClass? superclass), model⟩ rest
      ⟨memory, enactAll (some (model.defineIn scope name record).1) body
        (model.defineIn scope name record).2⟩ := by
  have hdefine := Declarations.defineClass_yields Opcode.defineClass.name name model
    (.sequence (appendAll (.start label .classBody) body).putNil.leave) superclass
    (.ofClass? scope) hflags
  rw [class?_ofClass?, hrecord] at hdefine
  exact goes_definition flags hdefine (hbody (some _) _)

theorem goes_classDef (superclass : Option String) (hself : memory.self = .ofClass? scope)
    (hbody : Enacts nested memory ("<class:" ++ name ++ ">") body) :
    Goes Declarations.processors nested ((classDef name superclass body).code ++ rest)
      ⟨memory, model⟩ rest ⟨memory, (classDef name superclass body).enact scope model⟩ := by
  cases superclass with
  | none =>
    refine (goes_scope hself rfl).trans ((goes_push rfl).trans ?_)
    exact goes_opening .empty none rfl rfl hbody
  | some superclass =>
    refine (goes_scope hself rfl).trans ((goes_push rfl).trans ?_)
    refine (goes_constant superclass).trans ?_
    exact goes_opening .withSuperclass (some (resolve superclass model).1) rfl rfl hbody

theorem goes_moduleDef (hself : memory.self = .ofClass? scope)
    (hbody : Enacts nested memory ("<module:" ++ name ++ ">") body) :
    Goes Declarations.processors nested ((moduleDef name body).code ++ rest) ⟨memory, model⟩ rest
      ⟨memory, (moduleDef name body).enact scope model⟩ := by
  refine (goes_scope hself rfl).trans ((goes_push rfl).trans ?_)
  exact goes_opening .moduleBody none rfl rfl hbody

/-- Without a class around it, the body of a singleton class is run in no scope either. -/
theorem goes_singletonDef (hself : memory.self = .ofClass? scope)
    (hbody : Enacts nested memory "singleton class" body) :
    Goes Declarations.processors nested ((singletonDef body).code ++ rest) ⟨memory, model⟩ rest
      ⟨memory, (singletonDef body).enact scope model⟩ := by
  refine (goes_scope hself rfl).trans ((goes_push rfl).trans ?_)
  cases scope with
  | none =>
    exact goes_definition .singletonBody (Declarations.defineClass_yields_nil _ _ _ _ none rfl)
      (hbody none model)
  | some id =>
    exact goes_definition .singletonBody
      (Declarations.defineClass_yields_companion _ _ _ _ none id rfl)
      (hbody (some (model.companion id).1) (model.companion id).2)

theorem methodDef_yields (side : MethodSide) (name : String) (locals : List String)
    (parameters : ParameterLayout) (scope : Option ClassId) (model : Model) :
    ∃ method, (Declarations.processors.dispatch .optSendWithoutBlock side.definer
      [.ofClass? scope, .literal (.symbol name),
        .sequence (methodBody name locals parameters)]).Yields model method
      ((methodDef side name locals parameters).enact scope model) := by
  rw [Declarations.dispatch_eq (Declarations.find?_defineMethod side)]
  cases scope with
  | none => exact ⟨.nil, Declarations.defineMethod_yields_nil _ model side _⟩
  | some id => exact ⟨_, Declarations.defineMethod_yields _ name model side id _⟩

theorem goes_methodDef (side : MethodSide) (locals : List String) (parameters : ParameterLayout)
    (hself : memory.self = .ofClass? scope)
    (hbody : ∀ (method : Value) (model : Model),
      Enters nested method (methodBody name locals parameters) memory model model) :
    Goes Declarations.processors nested ((methodDef side name locals parameters).code ++ rest)
      ⟨memory, model⟩ rest ⟨memory, (methodDef side name locals parameters).enact scope model⟩ := by
  obtain ⟨method, hyields⟩ := methodDef_yields side name locals parameters scope model
  cases side with
  | instanceSide =>
    rw [← hself] at hyields
    refine (goes_push rfl).trans ((goes_push rfl).trans ?_)
    exact (goes_defineMethod_instanceSide rfl hyields (hbody method _)).trans (goes_discard rfl)
  | classSide =>
    refine (goes_scope hself rfl).trans ((goes_push rfl).trans ((goes_push rfl).trans ?_))
    exact (goes_defineMethod_classSide rfl hyields (hbody method _)).trans (goes_discard rfl)

theorem command?_mixinOf (kind : MixinKind) :
    (⟨.optSendWithoutBlock, [.call ⟨kind.name, 1, 0⟩, .nil]⟩ : Instruction).command? =
      some (.ok (.mixIn kind)) := by
  cases kind <;> rfl

theorem mixinOf_yields (kind : MixinKind) (source : String) (scope : Option ClassId)
    (model : Model) :
    (Declarations.processors.dispatch .optSendWithoutBlock kind.name
      [.ofClass? scope, .classRef (resolve source model).1]).Yields (resolve source model).2 .nil
      ((mixinOf kind source).enact scope model) := by
  rw [Declarations.dispatch_eq (Declarations.find?_mixIn kind)]
  cases scope with
  | none => exact Declarations.mixIn_yields_nil _ _ kind _
  | some id => exact Declarations.mixIn_yields _ _ kind id _

theorem goes_mixinOf (kind : MixinKind) (source : String)
    (hself : memory.self = .ofClass? scope) :
    Goes Declarations.processors nested ((mixinOf kind source).code ++ rest) ⟨memory, model⟩ rest
      ⟨memory, (mixinOf kind source).enact scope model⟩ := by
  refine (goes_scope hself rfl).trans ((goes_push rfl).trans ((goes_constant source).trans ?_))
  exact goes_mixIn (command?_mixinOf kind) (mixinOf_yields kind source scope model)

end Forms

/-- One level down, a body enacts its declarations if their code does. -/
theorem enacts_of_goes {levels : Nat} {label : String} {body : List Declaration}
    (h : ∀ (scope : Option ClassId) (memory : Memory) (model : Model),
      memory.self = .ofClass? scope →
        Goes Declarations.processors (runInFrame Declarations.processors levels)
          (body.flatMap code ++ bodyEnd) ⟨memory, model⟩ bodyEnd
          ⟨memory, enactAll scope body model⟩) :
    Enacts (runInFrame Declarations.processors (levels + 1)) memory label body := by
  intro scope model
  refine enters_of_goes ?_
  rw [code_body]
  exact h scope _ model rfl

mutual

/-- The code of a declaration enacts it and leaves the memory as it was. -/
theorem goes_enact {levels : Nat} {scope : Option ClassId} {memory : Memory} {model : Model}
    {rest : List Instruction} (declaration : Declaration) (hlevels : declaration.depth ≤ levels)
    (hself : memory.self = .ofClass? scope) :
    Goes Declarations.processors (runInFrame Declarations.processors levels)
      (declaration.code ++ rest) ⟨memory, model⟩ rest
      ⟨memory, declaration.enact scope model⟩ := by
  match declaration, levels, hlevels with
  | classDef name superclass body, levels + 1, hlevels =>
    exact goes_classDef superclass hself (enacts_of_goes fun _ _ _ =>
      goes_enactAll body (Nat.le_of_succ_le_succ hlevels))
  | moduleDef name body, levels + 1, hlevels =>
    exact goes_moduleDef hself (enacts_of_goes fun _ _ _ =>
      goes_enactAll body (Nat.le_of_succ_le_succ hlevels))
  | singletonDef body, levels + 1, hlevels =>
    exact goes_singletonDef hself (enacts_of_goes fun _ _ _ =>
      goes_enactAll body (Nat.le_of_succ_le_succ hlevels))
  | methodDef side name locals parameters, levels + 1, _ =>
    exact goes_methodDef side locals parameters hself enters_methodBody
  | mixinOf kind source, _, _ => exact goes_mixinOf kind source hself

theorem goes_enactAll {levels : Nat} {scope : Option ClassId} {memory : Memory} {model : Model}
    {rest : List Instruction} (declarations : List Declaration)
    (hlevels : depthAll declarations ≤ levels) (hself : memory.self = .ofClass? scope) :
    Goes Declarations.processors (runInFrame Declarations.processors levels)
      (declarations.flatMap code ++ rest) ⟨memory, model⟩ rest
      ⟨memory, enactAll scope declarations model⟩ := by
  match declarations with
  | [] => exact Goes.refl _ _
  | declaration :: others =>
    rw [List.flatMap_cons, List.append_assoc]
    have hfirst : declaration.depth ≤ levels := Nat.le_trans (Nat.le_max_left _ _) hlevels
    have hothers : depthAll others ≤ levels := Nat.le_trans (Nat.le_max_right _ _) hlevels
    exact (goes_enact declaration hfirst hself).trans (goes_enactAll others hothers hself)

end

end Simulation

/-- Indexing a program gives the model that its declarations make directly, and leaves nil. -/
theorem index_program (declarations : List Declaration) {levels : Nat}
    (hlevels : depthAll declarations < levels) :
    ∃ after, (Indexing.index levels (program declarations)).Ends
        (Indexing.start .nil { state := {} }) (.ok .nil) after ∧
      after.host.state = enactAll none declarations {} := by
  have hpos : levels ≠ 0 := Nat.ne_of_gt (Nat.zero_lt_of_lt hlevels)
  obtain ⟨levels, rfl⟩ := Nat.exists_eq_add_one_of_ne_zero hpos
  have hgoes : Machine.Enters (Machine.runInFrame Declarations.processors (levels + 1)) .nil
      (program declarations) (.ofRoot .nil) {} (enactAll none declarations {}) := by
    refine Machine.enters_of_goes ?_
    rw [program, code_body]
    exact goes_enactAll declarations (Nat.le_of_lt_succ hlevels) rfl
  obtain ⟨after, hends, hafter⟩ := hgoes (Indexing.start .nil { state := {} }) rfl
  exact ⟨after, RunM.ends_memory_bind_iff.2 hends, congrArg Snapshot.state hafter⟩

end Declaration

end ClassIndex
