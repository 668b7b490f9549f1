import ClassIndex.Indexing.Declarations
import ClassIndex.Proofs.Roster

/-!
# What declarations do to the model

`action.Yields state value after` says what an action makes of the state of its host, whatever
events it reports on the way.  For each processor that a declaration goes through there is one
theorem of this form, in terms of the operations of the class model; and for each instruction with
such a processor one that says that it is found (`find?_getConstant`, …, `find?_mixIn`).
-/

namespace ClassIndex

namespace ActionM

variable {σ α β : Type}

/-- On a host with that state the action yields `value` and leaves the state `after`. -/
def Yields (action : ActionM σ α) (state : σ) (value : α) (after : σ) : Prop :=
  ∀ host : Host σ, host.state = state →
    ∃ final, action.run.run host = (.ok value, final) ∧ final.state = after

section Rules

variable {state between after : σ}

theorem Yields.bind {action : ActionM σ α} {next : α → ActionM σ β} {value : α} {result : β}
    (h : action.Yields state value between) (hnext : (next value).Yields between result after) :
    (action >>= next).Yields state result after := by
  intro host hstate
  obtain ⟨middle, hrun, hbetween⟩ := h host hstate
  obtain ⟨final, hfinal, hafter⟩ := hnext middle hbetween
  refine ⟨final, ?_, hafter⟩
  rw [run_bind, hrun]
  exact hfinal

theorem yields_pure (value : α) : (pure value : ActionM σ α).Yields state value state :=
  fun host hstate => ⟨host, rfl, hstate⟩

theorem yields_report (event : Event) : (report event : ActionM σ Unit).Yields state () state :=
  fun host hstate => ⟨host.reporting event, rfl, hstate⟩

theorem yields_state : (ActionM.state : ActionM σ σ).Yields state state state :=
  fun host hstate => ⟨host, by rw [← hstate]; rfl, hstate⟩

theorem yields_update (change : σ → α × σ) :
    (update change).Yields state (change state).1 (change state).2 := by
  rintro host rfl
  exact ⟨_, rfl, rfl⟩

theorem yields_lift {given : Except RunError α} {value : α} (h : given = .ok value) :
    (liftM given : ActionM σ α).Yields state value state := by
  subst h
  exact fun host hstate => ⟨host, rfl, hstate⟩

theorem yields_if_pos {condition : Prop} [Decidable condition] {first second : ActionM σ α}
    {value : α} (hcondition : condition) (h : first.Yields state value after) :
    (if condition then first else second).Yields state value after := by
  rw [if_pos hcondition]
  exact h

theorem yields_if_neg {condition : Prop} [Decidable condition] {first second : ActionM σ α}
    {value : α} (hcondition : ¬ condition) (h : second.Yields state value after) :
    (if condition then first else second).Yields state value after := by
  rw [if_neg hcondition]
  exact h

end Rules

end ActionM

namespace Arguments

variable {processor : String} {values : List Value} {index : Nat}

theorem name_of_symbol {name : String} (h : values[index]? = some (.literal (.symbol name))) :
    Arguments.name ⟨processor, values⟩ index = .ok name := by
  unfold Arguments.name Arguments.get
  rw [h]
  rfl

/-- A word of 32 bits is read back from the integer that it is written as. -/
theorem word?_ofInt_toNat (bits : UInt32) : word? (Int64.ofInt bits.toNat) = some bits := by
  have hlt : bits.toNat < 4294967296 := bits.toNat_lt
  have hint : (Int64.ofInt bits.toNat).toInt = bits.toNat :=
    Int64.toInt_ofInt_of_le (by omega) (by omega)
  unfold word?
  rw [hint, if_pos ⟨by omega, Int.ofNat_lt.2 bits.toNat_lt_size⟩, Int.toNat_natCast,
    UInt32.ofNat_toNat]

theorem flags_of_bits {flags : ClassFlags}
    (h : values[index]? = some (.literal (.integer (Int64.ofInt flags.bits.toNat)))) :
    Arguments.flags ⟨processor, values⟩ index = .ok flags.bits := by
  unfold Arguments.flags Arguments.integer Arguments.get
  rw [h]
  show Arguments.require _ _ _ (word? _) = _
  rw [word?_ofInt_toNat]
  rfl

end Arguments

namespace Model

/-- Defines or reopens the class with a name in a namespace, which has to be made a record for its
qualified name only if it is new. -/
def defineIn (enclosing : Option ClassId) (name : String) (record : String → ClassRecord)
    (model : Model) : ClassId × Model :=
  model.define (model.qualify enclosing name) (record (model.qualify enclosing name))

/-- The owner of the methods on one side of a class: the class, or its singleton class. -/
def methodOwner (side : MethodSide) (id : ClassId) (model : Model) : ClassId × Model :=
  match side with
  | .instanceSide => (id, model)
  | .classSide => model.companion id

/-- Defines a method with a signature: its record is added and entered into the table of its
class. -/
def defineMethod (side : MethodSide) (id : ClassId) (name : String) (parameters : List Parameter)
    (model : Model) : MethodId × Model :=
  let (owner, model) := model.methodOwner side id
  let (method, model) := model.addMethod
    { name := name, owner := some owner, parameters := parameters }
  (method, model.attachMethod side id method)

end Model

namespace Declarations

/-! ## Single processors -/

section Processors

variable (processor name : String) (model : Model)

theorem getConstant_yields (enclosing : Value) :
    (getConstant ⟨processor, [.literal (.symbol name), enclosing]⟩).Yields model
      (.classRef (model.defineIn enclosing.class? name .placeholder).1)
      (model.defineIn enclosing.class? name .placeholder).2 := by
  refine (ActionM.yields_lift (Arguments.name_of_symbol rfl)).bind ?_
  exact ActionM.yields_state.bind ((ActionM.yields_update _).bind (ActionM.yields_pure _))

/-- The record of a class or a module that is defined for the first time. -/
def recordFor (flags : ClassFlags) (superclass enclosing : Option ClassId) (fullname : String) :
    ClassRecord :=
  if flags.has .moduleBody then .modular fullname enclosing
  else .ordinary fullname superclass enclosing

theorem classOrNil_ofClass? {values : List Value} {index : Nat} {id : Option ClassId}
    (h : values[index]? = some (.ofClass? id)) :
    Arguments.classOrNil ⟨processor, values⟩ index = .ok id := by
  unfold Arguments.classOrNil Arguments.get
  rw [h]
  cases id <;> rfl

theorem defineClass_yields (body : Value) (superclass : Option ClassId) (enclosing : Value)
    {flags : ClassFlags} (hflags : flags.has .singletonBody = false) :
    (defineClass ⟨processor, [.literal (.symbol name), body, .ofClass? superclass, enclosing,
        .literal (.integer (Int64.ofInt flags.bits.toNat))]⟩).Yields model
      (.classRef (model.defineIn enclosing.class? name
        (recordFor flags superclass enclosing.class?)).1)
      (model.defineIn enclosing.class? name (recordFor flags superclass enclosing.class?)).2 := by
  refine (ActionM.yields_lift (Arguments.name_of_symbol rfl)).bind ?_
  refine (ActionM.yields_lift (classOrNil_ofClass? processor rfl)).bind ?_
  refine (ActionM.yields_lift (Arguments.flags_of_bits rfl)).bind ?_
  refine ActionM.yields_if_neg (Bool.not_eq_true _ ▸ hflags) ?_
  refine ActionM.yields_state.bind ?_
  refine (ActionM.yields_update _).bind ?_
  exact (ActionM.yields_report _).bind (ActionM.yields_pure _)

theorem defineClass_yields_companion (body : Value) (superclass : Option ClassId) (id : ClassId)
    {flags : ClassFlags} (hflags : flags.has .singletonBody = true) :
    (defineClass ⟨processor, [.literal (.symbol name), body, .ofClass? superclass, .classRef id,
        .literal (.integer (Int64.ofInt flags.bits.toNat))]⟩).Yields model
      (.classRef (model.companion id).1) (model.companion id).2 := by
  refine (ActionM.yields_lift (Arguments.name_of_symbol rfl)).bind ?_
  refine (ActionM.yields_lift (classOrNil_ofClass? processor rfl)).bind ?_
  refine (ActionM.yields_lift (Arguments.flags_of_bits rfl)).bind ?_
  refine ActionM.yields_if_pos hflags ?_
  exact (ActionM.yields_update _).bind (ActionM.yields_pure _)

/-- Nothing has no singleton class. -/
theorem defineClass_yields_nil (body : Value) (superclass : Option ClassId)
    {flags : ClassFlags} (hflags : flags.has .singletonBody = true) :
    (defineClass ⟨processor, [.literal (.symbol name), body, .ofClass? superclass, .nil,
        .literal (.integer (Int64.ofInt flags.bits.toNat))]⟩).Yields model .nil model := by
  refine (ActionM.yields_lift (Arguments.name_of_symbol rfl)).bind ?_
  refine (ActionM.yields_lift (classOrNil_ofClass? processor rfl)).bind ?_
  refine (ActionM.yields_lift (Arguments.flags_of_bits rfl)).bind ?_
  refine ActionM.yields_if_pos hflags ?_
  exact ActionM.yields_state.bind ((ActionM.yields_report _).bind (ActionM.yields_pure _))

theorem receiver?_yields (action : String) (id : ClassId) (rest : List Value) :
    (receiver? action ⟨processor, .classRef id :: rest⟩).Yields model (some id) model :=
  ActionM.yields_pure _

theorem receiver?_yields_none (action : String) (rest : List Value) :
    (receiver? action ⟨processor, .nil :: rest⟩).Yields model none model :=
  ActionM.yields_state.bind ((ActionM.yields_report _).bind (ActionM.yields_pure _))

theorem owner_yields (side : MethodSide) (id : ClassId) :
    (owner side id).Yields model (model.methodOwner side id).1 (model.methodOwner side id).2 := by
  cases side with
  | instanceSide => exact ActionM.yields_pure id
  | classSide => exact ActionM.yields_update (Model.companion id)

theorem defineMethod_yields (side : MethodSide) (id : ClassId) (body : Sequence) :
    (defineMethod side ⟨processor,
        [.classRef id, .literal (.symbol name), .sequence body]⟩).Yields model
      (.methodRef (model.defineMethod side id name body.signature).1)
      (model.defineMethod side id name body.signature).2 := by
  refine (receiver?_yields _ _ _ id _).bind ?_
  refine (ActionM.yields_lift (Arguments.name_of_symbol rfl)).bind ?_
  refine (owner_yields _ side id).bind ?_
  refine ActionM.yields_state.bind ((ActionM.yields_update _).bind ?_)
  refine (ActionM.yields_update _).bind (ActionM.yields_state.bind ?_)
  exact (ActionM.yields_report _).bind (ActionM.yields_pure _)

theorem defineMethod_yields_nil (side : MethodSide) (rest : List Value) :
    (defineMethod side ⟨processor, .nil :: rest⟩).Yields model .nil model :=
  (receiver?_yields_none _ _ _ _).bind (ActionM.yields_pure _)

theorem mixIn_yields (kind : MixinKind) (id source : ClassId) :
    (mixIn kind ⟨processor, [.classRef id, .classRef source]⟩).Yields model .nil
      (model.mixIn kind id source) := by
  refine (receiver?_yields _ _ _ id _).bind ?_
  refine (ActionM.yields_update _).bind (ActionM.yields_state.bind ?_)
  exact (ActionM.yields_report _).bind (ActionM.yields_pure _)

theorem mixIn_yields_nil (kind : MixinKind) (rest : List Value) :
    (mixIn kind ⟨processor, .nil :: rest⟩).Yields model .nil model :=
  (receiver?_yields_none _ _ _ _).bind (ActionM.yields_pure _)

end Processors

/-! ## Finding processors -/

/-- No two declarations of one instruction share a call, so that none is refused. -/
theorem registerAll_all : (Processors.empty.registerAll all).1 = .ok () := by
  have hok : (Processors.empty.registerAll all).1.isOk = true := by decide +kernel
  rcases hresult : (Processors.empty.registerAll all).1 with error | ⟨⟨⟩⟩
  · rw [hresult] at hok
    cases hok
  · rfl

theorem represents_processors : processors.Represents (all.map .ofEntry) :=
  Processors.represents_empty.registerAll registerAll_all

/-- Looking for a processor is searching the list of declarations. -/
theorem find?_eq_search? (opcode : Opcode) (qualifier : Option String) :
    processors.find? opcode qualifier =
      (Roster.search? (all.map .ofEntry) opcode qualifier).map (·.toRegistration) :=
  represents_processors.find?_eq opcode qualifier

theorem dispatch_eq {opcode : Opcode} {qualifier : Option String} {entry : Registration Model}
    (h : processors.find? opcode qualifier = some entry) (values : List Value) :
    processors.dispatch opcode qualifier values = entry.processor ⟨opcode.name, values⟩ := by
  unfold Processors.dispatch
  rw [h]

theorem find?_getConstant : processors.find? .getConstant none = some ⟨[], getConstant⟩ :=
  find?_eq_search? _ _

theorem find?_defineClass : processors.find? .defineClass none = some ⟨[], defineClass⟩ :=
  find?_eq_search? _ _

theorem find?_defineMethod (side : MethodSide) :
    processors.find? .optSendWithoutBlock (some side.definer) =
      some ⟨[side.definer], defineMethod side⟩ := by
  rw [find?_eq_search?]
  cases side <;> rfl

theorem find?_mixIn (kind : MixinKind) :
    processors.find? .optSendWithoutBlock (some kind.name) = some ⟨[kind.name], mixIn kind⟩ := by
  rw [find?_eq_search?]
  cases kind <;> rfl

end Declarations

end ClassIndex
