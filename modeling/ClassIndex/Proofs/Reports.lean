import ClassIndex.Proofs.Requests

/-!
# What declarations report

Processors report on top of what was reported before, and none of them takes back an event
(`DeclarationKind.keepsEvents`).  Among the events is one for every definition of a class or a
module that gets through its checks (`run_defineClass`), so the events tell which names were
defined.  `dispatch_cases` says what can come of a declaration on the whole: either it leaves the
model alone, or it is one of the kinds of declarations that its instruction makes.
-/

namespace ClassIndex

namespace ActionM

variable {σ α β : Type}

/-- The action keeps the events that were reported before. -/
def KeepsEvents (action : ActionM σ α) : Prop :=
  ∀ host event, event ∈ host.events → event ∈ (action.run.run host).2.events

theorem keepsEvents_pure (value : α) : (pure value : ActionM σ α).KeepsEvents :=
  fun _ _ hevent => hevent

theorem keepsEvents_state : (ActionM.state : ActionM σ σ).KeepsEvents :=
  fun _ _ hevent => hevent

theorem keepsEvents_update (change : σ → α × σ) : (update change).KeepsEvents :=
  fun _ _ hevent => hevent

theorem keepsEvents_report (event : Event) : (report event : ActionM σ Unit).KeepsEvents :=
  fun _ _ hevent => Array.mem_push_of_mem _ hevent

theorem keepsEvents_lift (given : Except RunError α) : (liftM given : ActionM σ α).KeepsEvents := by
  cases given <;> exact fun _ _ hevent => hevent

theorem KeepsEvents.bind {action : ActionM σ α} {next : α → ActionM σ β} (h : action.KeepsEvents)
    (hnext : ∀ value, (next value).KeepsEvents) : (action >>= next).KeepsEvents := by
  intro host event hevent
  have hbetween := h host event hevent
  rw [run_bind]
  rcases hrun : action.run.run host with ⟨error | value, between⟩
  · rw [hrun] at hbetween
    exact hbetween
  · rw [hrun] at hbetween
    exact hnext value between event hbetween

end ActionM

open ActionM

namespace Declarations

theorem keepsEvents_receiver? (action : String) (args : Arguments) :
    (receiver? action args).KeepsEvents := by
  unfold receiver?
  split
  · exact keepsEvents_pure _
  · exact keepsEvents_state.bind fun _ => (keepsEvents_report _).bind fun _ => keepsEvents_pure _

theorem keepsEvents_defineClass (args : Arguments) : (defineClass args).KeepsEvents := by
  refine (keepsEvents_lift _).bind fun name => (keepsEvents_lift _).bind fun superclass =>
    (keepsEvents_lift _).bind fun flags => ?_
  dsimp only
  split
  · split
    · exact (keepsEvents_update _).bind fun _ => keepsEvents_pure _
    · exact keepsEvents_state.bind fun _ => (keepsEvents_report _).bind fun _ => keepsEvents_pure _
  · exact keepsEvents_state.bind fun _ => (keepsEvents_update _).bind fun _ =>
      (keepsEvents_report _).bind fun _ => keepsEvents_pure _

theorem keepsEvents_getConstant (args : Arguments) : (getConstant args).KeepsEvents :=
  (keepsEvents_lift _).bind fun _ => keepsEvents_state.bind fun _ =>
    (keepsEvents_update _).bind fun _ => keepsEvents_pure _

theorem keepsEvents_defineMethod (side : MethodSide) (args : Arguments) :
    (defineMethod side args).KeepsEvents := by
  refine (keepsEvents_receiver? _ _).bind fun receiver => ?_
  cases receiver with
  | none => exact keepsEvents_pure _
  | some id =>
    have howner : (owner side id).KeepsEvents := by
      cases side with
      | instanceSide => exact keepsEvents_pure id
      | classSide => exact keepsEvents_update _
    exact (keepsEvents_lift _).bind fun _ => howner.bind fun _ => keepsEvents_state.bind fun _ =>
      (keepsEvents_update _).bind fun _ => (keepsEvents_update _).bind fun _ =>
        keepsEvents_state.bind fun _ => (keepsEvents_report _).bind fun _ => keepsEvents_pure _

theorem keepsEvents_findMethod (side : MethodSide) (args : Arguments) :
    (findMethod side args).KeepsEvents := by
  refine (keepsEvents_receiver? _ _).bind fun receiver => ?_
  cases receiver with
  | none => exact keepsEvents_pure _
  | some id =>
    exact (keepsEvents_lift _).bind fun _ => keepsEvents_state.bind fun _ => keepsEvents_pure _

theorem keepsEvents_mixIn (kind : MixinKind) (args : Arguments) :
    (mixIn kind args).KeepsEvents := by
  refine (keepsEvents_receiver? _ _).bind fun receiver => ?_
  cases receiver with
  | none => exact keepsEvents_pure _
  | some id =>
    dsimp only
    split
    · exact keepsEvents_state.bind fun _ => (keepsEvents_report _).bind fun _ => keepsEvents_pure _
    · exact (keepsEvents_update _).bind fun _ => keepsEvents_state.bind fun _ =>
        (keepsEvents_report _).bind fun _ => keepsEvents_pure _

end Declarations

namespace DeclarationKind

theorem keepsEvents (kind : DeclarationKind) (args : Arguments) :
    (kind.processor args).KeepsEvents := by
  cases kind with
  | defineClass => exact Declarations.keepsEvents_defineClass args
  | getConstant => exact Declarations.keepsEvents_getConstant args
  | defineMethod side => exact Declarations.keepsEvents_defineMethod side args
  | findMethod side => exact Declarations.keepsEvents_findMethod side args
  | mixIn kind => exact Declarations.keepsEvents_mixIn kind args

/-- A class that is asked for by name comes from a constant that is read, and has the record of a
placeholder then, or from a definition, and has the record that the definition states. -/
theorem eq_of_define {kind : DeclarationKind} {args : Arguments} {enclosing : Option ClassId}
    {name : String} {record : String → ClassRecord}
    (h : kind.request args = .ok (.define enclosing name record)) :
    args.name 0 = .ok name ∧
      (kind = getConstant ∧ record = .placeholder ∨
        kind = defineClass ∧ enclosing = (args.get 3).class? ∧
          ∃ superclass flags, args.classOrNil 2 = .ok superclass ∧ args.flags 4 = .ok flags ∧
            ClassFlags.has ⟨flags⟩ .singletonBody = false ∧
            record = Declarations.recordFor ⟨flags⟩ superclass enclosing) := by
  cases kind with
  | defineClass =>
    obtain ⟨given, hname, h⟩ := except_bind_eq_ok h
    obtain ⟨superclass, hsuperclass, h⟩ := except_bind_eq_ok h
    obtain ⟨flags, hflags, h⟩ := except_bind_eq_ok h
    dsimp only at h
    split at h
    · generalize (args.get 3).class? = scope at h
      cases scope <;> cases h
    · rename_i hsingleton
      cases h
      exact ⟨hname, Or.inr ⟨rfl, rfl, superclass, flags, hsuperclass, hflags,
        Bool.eq_false_iff.2 hsingleton, rfl⟩⟩
  | getConstant =>
    obtain ⟨given, hname, h⟩ := except_bind_eq_ok h
    cases h
    exact ⟨hname, Or.inl ⟨rfl, rfl⟩⟩
  | defineMethod side | findMethod side =>
    simp only [request] at h
    split at h
    · cases h
    · obtain ⟨given, -, h⟩ := except_bind_eq_ok h
      cases h
  | mixIn kind =>
    simp only [request] at h
    split at h <;> cases h

end DeclarationKind

/-- A superclass is a class among the arguments. -/
theorem Arguments.class?_of_classOrNil {args : Arguments} {index : Nat} {id : ClassId}
    (h : args.classOrNil index = .ok (some id)) : (args.get index).class? = some id := by
  unfold classOrNil at h
  split at h <;> cases h
  rename_i hget
  rw [hget]
  rfl

namespace Declarations

/-- A definition that gets through its checks yields the class of its name and is reported. -/
theorem run_defineClass {args : Arguments} {name : String} {superclass : Option ClassId}
    {flags : UInt32} (host : Host Model) (hname : args.name 0 = .ok name)
    (hsuperclass : args.classOrNil 2 = .ok superclass) (hflags : args.flags 4 = .ok flags)
    (hsingleton : ClassFlags.has ⟨flags⟩ .singletonBody = false) :
    let enclosing := (args.get 3).class?
    let defined := host.state.defineIn enclosing name (recordFor ⟨flags⟩ superclass enclosing)
    (defineClass args).run.run host = (.ok (.classRef defined.1),
      ⟨defined.2, host.events.push (.foundClass (host.state.qualify enclosing name))⟩) := by
  unfold defineClass
  simp only [hname, hsuperclass, hflags]
  show (if _ then _ else _ : ActionM Model Value).run.run host = _
  rw [if_neg (Bool.not_eq_true _ ▸ hsingleton)]
  rfl

/-- A declaration takes back no event.  It leaves the model alone, or it is one that its instruction
makes, and the model has done what it asks. -/
theorem dispatch_cases {opcode : Opcode} {qualifier : Option String} {values : List Value}
    {host after : Host Model} {outcome : Except RunError Value}
    (hrun : (processors.dispatch opcode qualifier values).run.run host = (outcome, after)) :
    (∀ event ∈ host.events, event ∈ after.events) ∧
      (after.state = host.state ∨
        ∃ (kind : DeclarationKind) (request : Request), opcode ∈ kind.opcodes ∧
          kind.request ⟨opcode.name, values⟩ = .ok request ∧
          after.state = (request.fulfil host.state).2 ∧
          (kind.processor ⟨opcode.name, values⟩).run.run host = (outcome, after)) := by
  rcases hfind : processors.find? opcode qualifier with _ | entry
  · unfold Processors.dispatch at hrun
    rw [hfind] at hrun
    cases hrun
    exact ⟨fun event hevent => Array.mem_push_of_mem _ hevent, Or.inl rfl⟩
  · obtain ⟨kind, hkind, hopcode⟩ := exists_kind_of_find? hfind
    rw [dispatch_eq hfind, hkind] at hrun
    have hevents := kind.keepsEvents ⟨opcode.name, values⟩ host
    have hresults := kind.run_processor ⟨opcode.name, values⟩ host
    rw [ActionM.Results, hrun] at hresults
    rw [hrun] at hevents
    refine ⟨hevents, ?_⟩
    rcases hrequest : kind.request ⟨opcode.name, values⟩ with error | request
    · rw [hrequest] at hresults
      exact Or.inl (congrArg Prod.snd hresults)
    · rw [hrequest] at hresults
      exact Or.inr ⟨kind, request, hopcode, hrequest, congrArg Prod.snd hresults, hrun⟩

end Declarations

end ClassIndex
