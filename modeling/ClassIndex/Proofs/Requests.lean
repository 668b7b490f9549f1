import ClassIndex.Proofs.Actions
import ClassIndex.Proofs.Soundness

/-!
# What declarations ask of the model

Every processor checks its arguments first, without a look at the model, and then asks one thing of
the model: `DeclarationKind.request` is the check, `Request.fulfil` what the model does.
`DeclarationKind.run_processor` says that a processor is just that, apart from the events that it
reports, and `run_dispatch` that so is every declaration that the machine hands on.  What is said
about declarations in general is therefore said about requests.
-/

namespace ClassIndex

/-- What a declaration asks of the model once its arguments are checked. -/
inductive Request where
  /-- Nothing, on something that is not a class. -/
  | nothing
  /-- The class of a name in a namespace, with a record for the qualified name if it is new. -/
  | define (enclosing : Option ClassId) (name : String) (record : String → ClassRecord)
  | companion (id : ClassId)
  | method (side : MethodSide) (id : ClassId) (name : String) (body : Value)
  | find (side : MethodSide) (id : ClassId) (name : String)
  | mixIn (kind : MixinKind) (id source : ClassId)

namespace Request

/-- What the model does for a request. -/
def fulfil : Request → Model → Value × Model
  | nothing, model => (.nil, model)
  | define enclosing name record, model =>
    let (id, model) := model.defineIn enclosing name record
    (.classRef id, model)
  | companion id, model =>
    let (singleton, model) := model.companion id
    (.classRef singleton, model)
  | method side id name body, model =>
    let (owner, model) := model.methodOwner side id
    let (added, model) := model.addMethod (Declarations.methodFrom model name owner body)
    (.methodRef added, model.attachMethod side id added)
  | find side id name, model => (.ofMethod? (model.findMethod? side id name), model)
  | mixIn kind id source, model => (.nil, model.mixIn kind id source)

/-- What comes of a request that may have been refused. -/
def answer : Except RunError Request → Model → Except RunError Value × Model
  | .error error, model => (.error error, model)
  | .ok request, model => (.ok (request.fulfil model).1, (request.fulfil model).2)

theorem sequence?_fulfil (request : Request) (model : Model) :
    (request.fulfil model).1.sequence? = none := by
  cases request with
  | find side id name =>
    show (Value.ofMethod? (model.findMethod? side id name)).sequence? = none
    cases model.findMethod? side id name <;> rfl
  | _ => rfl

end Request

/-- The declarations. -/
inductive DeclarationKind where
  | defineClass
  | getConstant
  | defineMethod (side : MethodSide)
  | findMethod (side : MethodSide)
  | mixIn (kind : MixinKind)

namespace DeclarationKind

/-- The processor of a declaration. -/
def processor : DeclarationKind → Processor Model
  | defineClass => Declarations.defineClass
  | getConstant => Declarations.getConstant
  | defineMethod side => Declarations.defineMethod side
  | findMethod side => Declarations.findMethod side
  | mixIn kind => Declarations.mixIn kind

/-- The instructions that make a declaration. -/
def opcodes : DeclarationKind → List Opcode
  | defineClass => [.defineClass]
  | getConstant => [.getConstant]
  | defineMethod _ => [.optSendWithoutBlock, .send]
  | findMethod _ | mixIn _ => [.optSendWithoutBlock]

/-- The calls that make a declaration, if it takes a call. -/
def qualifiers : DeclarationKind → List String
  | defineClass | getConstant => []
  | defineMethod side => [side.definer]
  | findMethod side => [side.finder]
  | mixIn kind => [kind.name]

/-- The check of the arguments. -/
def request : DeclarationKind → Arguments → Except RunError Request
  | defineClass, args => do
    let name ← args.name 0
    let superclass ← args.classOrNil 2
    let flags ← args.flags 4
    let enclosing := (args.get 3).class?
    if ClassFlags.has ⟨flags⟩ .singletonBody then
      return enclosing.elim .nothing .companion
    else
      return .define enclosing name (Declarations.recordFor ⟨flags⟩ superclass enclosing)
  | getConstant, args => do
    let name ← args.name 0
    return .define (args.get 1).class? name .placeholder
  | defineMethod side, args =>
    match (args.get 0).class? with
    | none => return .nothing
    | some id => do
      let name ← args.name 1
      return .method side id name (args.get 2)
  | findMethod side, args =>
    match (args.get 0).class? with
    | none => return .nothing
    | some id => do
      let name ← args.name 1
      return .find side id name
  | mixIn kind, args =>
    match (args.get 0).class?, (args.get 1).class? with
    | some id, some source => return .mixIn kind id source
    | _, _ => return .nothing

end DeclarationKind

namespace ActionM

variable {σ α β : Type}

/-- The outcome of an action and the state that it leaves are these, whatever it reports. -/
def Results (action : ActionM σ α) (host : Host σ) (result : Except RunError α × σ) : Prop :=
  ((action.run.run host).1, (action.run.run host).2.state) = result

theorem Results.exists_run {action : ActionM σ α} {host : Host σ} {outcome : Except RunError α}
    {state : σ} (h : action.Results host (outcome, state)) :
    ∃ after, action.run.run host = (outcome, after) ∧ after.state = state := by
  rw [Results, Prod.mk.injEq] at h
  exact ⟨_, Prod.ext h.1 rfl, h.2⟩

end ActionM

namespace DeclarationKind

/-- A processor is the check of its arguments, followed by what the model does for the request. -/
theorem run_processor (kind : DeclarationKind) (args : Arguments) (host : Host Model) :
    (kind.processor args).Results host (Request.answer (kind.request args) host.state) := by
  cases kind with
  | defineClass =>
    show (Declarations.defineClass args).Results host _
    unfold Declarations.defineClass
    simp only [request]
    rcases args.name 0 with error | name
    · rfl
    rcases args.classOrNil 2 with error | superclass
    · rfl
    rcases args.flags 4 with error | flags
    · rfl
    show ActionM.Results (if _ then _ else _) _ (Request.answer (if _ then _ else _) _)
    by_cases hsingleton : ClassFlags.has ⟨flags⟩ .singletonBody = true
    · rw [if_pos hsingleton, if_pos hsingleton]
      cases (args.get 3).class? <;> rfl
    · rw [if_neg hsingleton, if_neg hsingleton]
      rfl
  | getConstant =>
    show (Declarations.getConstant args).Results host _
    unfold Declarations.getConstant
    simp only [request]
    rcases args.name 0 with error | name <;> rfl
  | defineMethod side =>
    show (Declarations.defineMethod side args).Results host _
    unfold Declarations.defineMethod Declarations.receiver?
    simp only [request]
    rcases (args.get 0).class? with _ | id
    · rfl
    rcases args.name 1 with error | name
    · rfl
    cases side <;> rfl
  | findMethod side =>
    show (Declarations.findMethod side args).Results host _
    unfold Declarations.findMethod Declarations.receiver?
    simp only [request]
    rcases (args.get 0).class? with _ | id
    · rfl
    rcases args.name 1 with error | name <;> rfl
  | mixIn kind =>
    show (Declarations.mixIn kind args).Results host _
    unfold Declarations.mixIn Declarations.receiver?
    simp only [request]
    rcases (args.get 0).class? with _ | id
    · rfl
    rcases (args.get 1).class? with _ | source <;> rfl

end DeclarationKind

/-! ## Finding processors -/

namespace DeclarationKind

/-- The declarations and their instructions, in order of registration. -/
def registered : List (Opcode × DeclarationKind) :=
  [(.defineClass, .defineClass), (.getConstant, .getConstant),
    (.optSendWithoutBlock, .defineMethod .instanceSide),
    (.optSendWithoutBlock, .defineMethod .classSide), (.send, .defineMethod .instanceSide),
    (.send, .defineMethod .classSide), (.optSendWithoutBlock, .findMethod .instanceSide),
    (.optSendWithoutBlock, .findMethod .classSide), (.optSendWithoutBlock, .mixIn .included),
    (.optSendWithoutBlock, .mixIn .extended), (.optSendWithoutBlock, .mixIn .prepended)]

theorem all_eq_map_registered :
    Declarations.all = registered.map fun (opcode, kind) =>
      (opcode, kind.qualifiers, kind.processor) :=
  rfl

theorem mem_registered_iff {opcode : Opcode} {kind : DeclarationKind} :
    (opcode, kind) ∈ registered ↔ opcode ∈ kind.opcodes := by
  cases kind with
  | defineClass | getConstant => simp [registered, opcodes]
  | defineMethod side | findMethod side => cases side <;> simp [registered, opcodes]
  | mixIn kind => cases kind <;> simp [registered, opcodes]

end DeclarationKind

namespace Declarations

/-- There is a processor for each declaration under each of its instructions, and no other. -/
theorem mem_all_iff {opcode : Opcode} {entry : Registration Model} :
    (opcode, entry.qualifiers, entry.processor) ∈ all ↔
      ∃ kind : DeclarationKind, opcode ∈ kind.opcodes ∧
        entry = ⟨kind.qualifiers, kind.processor⟩ := by
  rw [DeclarationKind.all_eq_map_registered, List.mem_map]
  constructor
  · rintro ⟨⟨opcode, kind⟩, hkind, hentry⟩
    simp only [Prod.mk.injEq] at hentry
    obtain ⟨rfl, hqualifiers, hprocessor⟩ := hentry
    refine ⟨kind, DeclarationKind.mem_registered_iff.1 hkind, ?_⟩
    rw [hqualifiers, hprocessor]
  · rintro ⟨kind, hopcode, rfl⟩
    exact ⟨(opcode, kind), DeclarationKind.mem_registered_iff.2 hopcode, rfl⟩

theorem exists_kind_of_find? {opcode : Opcode} {qualifier : Option String}
    {entry : Registration Model} (h : processors.find? opcode qualifier = some entry) :
    ∃ kind : DeclarationKind, entry.processor = kind.processor ∧ opcode ∈ kind.opcodes := by
  rw [find?_eq_search?, Option.map_eq_some_iff] at h
  obtain ⟨call, hcall, rfl⟩ := h
  obtain ⟨hmem, rfl⟩ := Roster.mem_of_search? hcall
  obtain ⟨kind, hopcode, hentry⟩ := mem_all_iff.1 (RegistrationCall.mem_map_ofEntry_iff.1 hmem)
  exact ⟨kind, congrArg Registration.processor hentry, hopcode⟩

/-- Every declaration that is handed on is checked and then asks one thing of the model. -/
theorem run_dispatch (opcode : Opcode) (qualifier : Option String) :
    ∃ check : List Value → Except RunError Request,
      ((∀ values, check values = .ok .nothing) ∨
        ∃ kind : DeclarationKind, ∀ values, check values = kind.request ⟨opcode.name, values⟩) ∧
      ∀ values host, (processors.dispatch opcode qualifier values).Results host
        (Request.answer (check values) host.state) := by
  rcases hfind : processors.find? opcode qualifier with _ | entry
  · refine ⟨fun _ => .ok .nothing, Or.inl fun _ => rfl, fun values host => ?_⟩
    unfold Processors.dispatch
    rw [hfind]
    rfl
  · obtain ⟨kind, hkind, -⟩ := exists_kind_of_find? hfind
    refine ⟨_, Or.inr ⟨kind, fun _ => rfl⟩, fun values host => ?_⟩
    rw [dispatch_eq hfind, hkind]
    exact kind.run_processor _ host

theorem noSequences_processors : processors.NoSequences := by
  intro opcode qualifier entry hentry arguments host body after hrun
  obtain ⟨kind, hkind, -⟩ := exists_kind_of_find? hentry
  have hresults := kind.run_processor arguments host
  rw [← hkind, ActionM.Results, hrun] at hresults
  rcases hrequest : kind.request arguments with error | request
  · rw [hrequest] at hresults
    cases hresults
  · rw [hrequest, Request.answer, Prod.mk.injEq, Except.ok.injEq] at hresults
    have hsequence := request.sequence?_fulfil host.state
    rw [← hresults.1] at hsequence
    cases hsequence

end Declarations

end ClassIndex
