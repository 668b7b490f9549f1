import ClassIndex.Proofs.FrameRule
import ClassIndex.Proofs.Ledger

/-!
# The same code on a larger model

Two indexers run the same code, the second one on a model that says at least what the first one
does.  Classes are alike if they stand at the same path.  The one thing that the second indexer can
see of what its model says besides is a method that the first one looks up in vain: it then holds a
method where the first one holds nil.  Nothing but a superclass tells the two apart, and for a
superclass the second indexer stops with an error.  Until then both do the same deeds: the second
model gains what the first one gains (`Model.Tracks`).  This is `lawful_replay`, and `replay_index`
says what it comes to for whole runs.
-/

namespace ClassIndex

/-! ## Values and arguments -/

/-- The values mean the same on the two models, or the second one is a method where the first one is
nil. -/
inductive Value.Alike (model other : Model) : Value → Value → Prop
  | plain {value : Value} (h : value.IsPlain) : Alike model other value value
  | classes {path : ClassPath} {id id' : ClassId} (h : model.locate path = some id)
      (h' : other.locate path = some id') : Alike model other (.classRef id) (.classRef id')
  | methods (id id' : MethodId) : Alike model other (.methodRef id) (.methodRef id')
  | found (id' : MethodId) : Alike model other .nil (.methodRef id')

namespace Value.Alike

variable {model other : Model} {value value' : Value}

theorem nil : Alike model other .nil .nil :=
  .plain ⟨rfl, rfl⟩

theorem mono {model' other' : Model} (h : Alike model other value value')
    (hmodel : model.locate.Extends model'.locate) (hother : other.locate.Extends other'.locate) :
    Alike model' other' value value' := by
  cases h with
  | plain h => exact .plain h
  | classes h h' => exact .classes (hmodel _ _ h) (hother _ _ h')
  | methods id id' => exact .methods id id'
  | found id' => exact .found id'

theorem sequence?_eq (h : Alike model other value value') :
    value.sequence? = value'.sequence? := by
  cases h <;> rfl

theorem name?_eq (h : Alike model other value value') : value.name? = value'.name? := by
  cases h <;> rfl

theorem integer?_eq (h : Alike model other value value') : value.integer? = value'.integer? := by
  cases h <;> rfl

/-- Either both are classes, at the same path, or neither is. -/
theorem class?_cases (h : Alike model other value value') :
    (value.class? = none ∧ value'.class? = none) ∨
      ∃ path id id', value.class? = some id ∧ value'.class? = some id' ∧
        model.locate path = some id ∧ other.locate path = some id' := by
  cases h with
  | plain h => exact Or.inl ⟨h.1, h.1⟩
  | classes h h' => exact Or.inr ⟨_, _, _, rfl, rfl, h, h'⟩
  | methods id id' => exact Or.inl ⟨rfl, rfl⟩
  | found id' => exact Or.inl ⟨rfl, rfl⟩

theorem class?_agree (h : Alike model other value value') :
    ∃ path, model.locate.Agree path value.class? ∧ other.locate.Agree path value'.class? := by
  rcases h.class?_cases with ⟨hnone, hnone'⟩ | ⟨path, id, id', hid, hid', hpath, hpath'⟩
  · rw [hnone, hnone']
    exact ⟨none, .none, .none⟩
  · rw [hid, hid']
    exact ⟨some path, .some hpath, .some hpath'⟩

end Value.Alike

namespace Arguments

/-- The arguments are alike at every position. -/
def Alike (model other : Model) (args args' : Arguments) : Prop :=
  ∀ index, (args.get index).Alike model other (args'.get index)

theorem alike_of_forall₂ {model other : Model} {processor : String} {values values' : List Value}
    (h : List.Forall₂ (Value.Alike model other) values values') :
    Alike model other ⟨processor, values⟩ ⟨processor, values'⟩ := by
  intro index
  unfold get
  dsimp only
  induction h generalizing index with
  | nil => exact .nil
  | cons hhead _ ih =>
    cases index with
    | zero => exact hhead
    | succ index => exact ih index

variable {model other : Model} {args args' : Arguments}

theorem require_eq_ok {α : Type} {index : Nat} {expected : String} {given : Option α} {value : α}
    (h : args'.require index expected given = .ok value) :
    args.require index expected given = .ok value := by
  cases given with
  | none => cases h
  | some value' => exact h

theorem Alike.name_eq_ok (h : Alike model other args args') {index : Nat} {name : String}
    (hname : args'.name index = .ok name) : args.name index = .ok name := by
  unfold Arguments.name at hname ⊢
  rw [(h index).name?_eq]
  exact require_eq_ok hname

theorem Alike.flags_eq_ok (h : Alike model other args args') {index : Nat} {flags : UInt32}
    (hflags : args'.flags index = .ok flags) : args.flags index = .ok flags := by
  obtain ⟨value, hvalue, hword⟩ := except_bind_eq_ok hflags
  have hinteger : args.integer index = .ok value := by
    unfold Arguments.integer at hvalue ⊢
    rw [(h index).integer?_eq]
    exact require_eq_ok hvalue
  unfold Arguments.flags
  rw [hinteger]
  exact require_eq_ok hword

/-- What the second indexer takes for a superclass, the first one takes too. -/
theorem Alike.classOrNil_eq_ok (h : Alike model other args args') {index : Nat}
    {superclass' : Option ClassId} (hsuperclass : args'.classOrNil index = .ok superclass') :
    ∃ superclass, args.classOrNil index = .ok superclass := by
  have hvalue := h index
  unfold Arguments.classOrNil at hsuperclass ⊢
  generalize args.get index = value at hvalue ⊢
  generalize args'.get index = value' at hvalue hsuperclass
  cases hvalue with
  | plain _ => cases value <;> first | exact ⟨_, rfl⟩ | cases hsuperclass
  | classes _ _ => exact ⟨_, rfl⟩
  | methods _ _ => cases hsuperclass
  | found _ => cases hsuperclass

end Arguments

/-! ## Requests -/

namespace DeclarationKind

variable {model other : Model} {args args' : Arguments}

theorem request_defineClass {name : String} {superclass : Option ClassId} {flags : UInt32}
    (hname : args.name 0 = .ok name) (hsuperclass : args.classOrNil 2 = .ok superclass)
    (hflags : args.flags 4 = .ok flags) :
    defineClass.request args = .ok
      (if ClassFlags.has ⟨flags⟩ .singletonBody then
        (args.get 3).class?.elim Request.nothing .companion
      else .define (args.get 3).class? name
        (Declarations.recordFor ⟨flags⟩ superclass (args.get 3).class?)) := by
  simp only [request, hname, hsuperclass, hflags]
  show (if _ then _ else _) = _
  split <;> rfl

/-- A class is opened under the same name in the same scope, or the singleton class of the same
class. -/
theorem exists_request_defineClass (h : Arguments.Alike model other args args')
    {request' : Request} (hrequest : defineClass.request args' = .ok request') :
    ∃ request deed, defineClass.request args = .ok request ∧ request.Means model deed ∧
      request'.Means other deed := by
  obtain ⟨name, hname, hrest⟩ := except_bind_eq_ok hrequest
  obtain ⟨superclass', hsuperclass', hrest⟩ := except_bind_eq_ok hrest
  obtain ⟨flags, hflags, -⟩ := except_bind_eq_ok hrest
  obtain ⟨superclass, hsuperclass⟩ := h.classOrNil_eq_ok hsuperclass'
  have hfirst := request_defineClass (h.name_eq_ok hname) hsuperclass (h.flags_eq_ok hflags)
  rw [request_defineClass hname hsuperclass' hflags] at hrequest
  cases hrequest
  by_cases hsingleton : ClassFlags.has ⟨flags⟩ .singletonBody = true
  · rw [if_pos hsingleton] at hfirst ⊢
    rcases (h 3).class?_cases with ⟨hnone, hnone'⟩ | ⟨path, id, id', hid, hid', hpath, hpath'⟩
    · rw [hnone] at hfirst
      rw [hnone']
      exact ⟨_, .nothing, hfirst, .nothing, .nothing⟩
    · rw [hid] at hfirst
      rw [hid']
      exact ⟨_, .companion path, hfirst, .companion hpath, .companion hpath'⟩
  · rw [if_neg hsingleton] at hfirst ⊢
    obtain ⟨scope, hscope, hscope'⟩ := (h 3).class?_agree
    exact ⟨_, .define scope name, hfirst,
      .define hscope fun fullname => ClassRecord.isHeading_recordFor _ _ _ fullname,
      .define hscope' fun fullname => ClassRecord.isHeading_recordFor _ _ _ fullname⟩

theorem exists_request_getConstant (h : Arguments.Alike model other args args')
    {request' : Request} (hrequest : getConstant.request args' = .ok request') :
    ∃ request deed, getConstant.request args = .ok request ∧ request.Means model deed ∧
      request'.Means other deed := by
  obtain ⟨name, hname, hrest⟩ := except_bind_eq_ok hrequest
  cases hrest
  obtain ⟨scope, hscope, hscope'⟩ := (h 1).class?_agree
  refine ⟨.define (args.get 1).class? name .placeholder, .define scope name, ?_,
    .define hscope ClassRecord.isHeading_placeholder,
    .define hscope' ClassRecord.isHeading_placeholder⟩
  simp only [request, h.name_eq_ok hname]
  rfl

/-- What is asked of a class with a name, if the receiver is one: the receivers are the same class,
and the names are the same. -/
theorem exists_request_named (h : Arguments.Alike model other args args')
    {make make' : ClassId → String → Request} {deed : ClassPath → String → Deed}
    (hmake : ∀ path id name, model.locate path = some id →
      (make id name).Means model (deed path name))
    (hmake' : ∀ path id name, other.locate path = some id →
      (make' id name).Means other (deed path name))
    {request' : Request}
    (hrequest : (match (args'.get 0).class? with
      | none => return .nothing
      | some id => return make' id (← args'.name 1) : Except RunError Request) = .ok request') :
    ∃ request deed, (match (args.get 0).class? with
      | none => return .nothing
      | some id => return make id (← args.name 1) : Except RunError Request) = .ok request ∧
        request.Means model deed ∧ request'.Means other deed := by
  rcases (h 0).class?_cases with ⟨hnone, hnone'⟩ | ⟨path, id, id', hid, hid', hpath, hpath'⟩
  · rw [hnone'] at hrequest
    cases hrequest
    exact ⟨.nothing, .nothing, by rw [hnone]; rfl, .nothing, .nothing⟩
  · rw [hid'] at hrequest
    obtain ⟨name, hname, hrest⟩ := except_bind_eq_ok hrequest
    cases hrest
    refine ⟨make id name, deed path name, ?_, hmake path id name hpath,
      hmake' path id' name hpath'⟩
    simp only [hid, h.name_eq_ok hname]
    rfl

theorem exists_request_mixIn (kind : MixinKind) (h : Arguments.Alike model other args args')
    {request' : Request} (hrequest : (mixIn kind).request args' = .ok request') :
    ∃ request deed, (mixIn kind).request args = .ok request ∧ request.Means model deed ∧
      request'.Means other deed := by
  simp only [request] at hrequest ⊢
  rcases (h 0).class?_cases with ⟨hnone, hnone'⟩ | ⟨path, id, id', hid, hid', hpath, hpath'⟩
  · simp only [hnone'] at hrequest
    cases hrequest
    exact ⟨.nothing, .nothing, by simp only [hnone]; rfl, .nothing, .nothing⟩
  · rcases (h 1).class?_cases with
      ⟨hnone, hnone'⟩ | ⟨source, sourceId, sourceId', hsid, hsid', hsource, hsource'⟩
    · simp only [hid', hnone'] at hrequest
      cases hrequest
      exact ⟨.nothing, .nothing, by simp only [hid, hnone]; rfl, .nothing, .nothing⟩
    · simp only [hid', hsid'] at hrequest
      cases hrequest
      exact ⟨.mixIn kind id sourceId, .mixIn kind path source, by simp only [hid, hsid]; rfl,
        .mixIn kind hpath hsource, .mixIn kind hpath' hsource'⟩

/-- What the second indexer lets through, the first one lets through too, and it is the same
deed. -/
theorem exists_request_of_alike (kind : DeclarationKind)
    (h : Arguments.Alike model other args args') {request' : Request}
    (hrequest : kind.request args' = .ok request') :
    ∃ request deed, kind.request args = .ok request ∧ request.Means model deed ∧
      request'.Means other deed := by
  cases kind with
  | defineClass => exact exists_request_defineClass h hrequest
  | getConstant => exact exists_request_getConstant h hrequest
  | defineMethod side =>
    exact exists_request_named h (fun _ _ name => .method side name (args.get 2))
      (fun _ _ name => .method side name (args'.get 2)) hrequest
  | findMethod side =>
    exact exists_request_named h (fun _ _ name => .find side name)
      (fun _ _ name => .find side name) hrequest
  | mixIn kind => exact exists_request_mixIn kind h hrequest

end DeclarationKind

/-! ## Models -/

/-- The answers to one deed on two models are alike, if the second one says what the first one
does. -/
theorem Deed.alike_of_answered {model model' other other' : Model} {deed : Deed}
    {value value' : Value} (h : deed.Answered model model' value)
    (h' : deed.Answered other other' value')
    (hfacts : ∀ fact, model.Declares fact → other.Declares fact) :
    value.Alike model' other' value' := by
  cases deed with
  | nothing | mixIn kind path source =>
    cases h
    cases h'
    exact .nil
  | define scope name | companion path =>
    obtain ⟨id, rfl, hid⟩ := h
    obtain ⟨id', rfl, hid'⟩ := h'
    exact .classes hid hid'
  | method side path name =>
    obtain ⟨method, rfl⟩ := h
    obtain ⟨method', rfl⟩ := h'
    exact .methods method method'
  | find side path name =>
    replace h : if name ∈ model.methodNames path side then _ else _ := h
    replace h' : if name ∈ other.methodNames path side then _ else _ := h'
    by_cases hname : name ∈ model.methodNames path side
    · rw [if_pos hname] at h
      have hother : name ∈ other.methodNames path side := hfacts (.method path side name) hname
      rw [if_pos hother] at h'
      obtain ⟨method, rfl⟩ := h
      obtain ⟨method', rfl⟩ := h'
      exact .methods method method'
    · rw [if_neg hname] at h
      subst h
      split at h'
      · obtain ⟨method', rfl⟩ := h'
        exact .found method'
      · subst h'
        exact .nil

/-- From `small` and `large` on, two models have gained the same. -/
structure Model.Tracks (small large model other : Model) : Prop where
  coherent : model.Coherent
  coherent' : other.Coherent
  declares : ∀ fact, other.Declares fact ↔ large.Declares fact ∨ model.Declares fact
  mixins : ∀ path, (other.mixinsAt path : Multiset (MixinKind × String)) + small.mixinsAt path =
    large.mixinsAt path + model.mixinsAt path

namespace Model.Tracks

variable {small large model other model' other' : Model}

theorem start (hsmall : small.Coherent) (hlarge : large.Coherent)
    (hfacts : ∀ fact, small.Declares fact → large.Declares fact) :
    Tracks small large small large where
  coherent := hsmall
  coherent' := hlarge
  declares fact := by
    constructor
    · exact Or.inl
    · rintro (h | h)
      · exact h
      · exact hfacts fact h
  mixins path := rfl

theorem step (h : Tracks small large model other) {facts : Set Fact}
    {mixins : ClassPath → Multiset (MixinKind × String)} (hgains : model.Gains model' facts mixins)
    (hgains' : other.Gains other' facts mixins) : Tracks small large model' other' where
  coherent := hgains.coherent
  coherent' := hgains'.coherent
  declares fact := by
    rw [hgains.declares, hgains'.declares, h.declares]
    exact or_assoc
  mixins path := by
    rw [hgains.mixins, hgains'.mixins, add_right_comm, h.mixins, add_assoc]

end Model.Tracks

/-! ## Runs -/

open Declarations (processors)

namespace Simulation

/-- The same code on a model that says more.  The first indexer ends with no fact beyond `limit`. -/
def replay (small large : Model) (limit : Fact → Prop) : Simulation Model Model where
  Hosts host other := Model.Tracks small large host.state other.state
  Values host other := Value.Alike host.state other.state
  Followed _ := True
  Stopped other := other.state.Coherent ∧
    ∀ fact, other.state.Declares fact → large.Declares fact ∨ limit fact
  Within host := host.state.Indexed → ∀ fact, host.state.Declares fact → limit fact

variable {small large : Model} {limit : Fact → Prop}

/-- What is within the limit at the end was within it before. -/
theorem within_of_grows {host after : Host Model} (h : host.state.Grows after.state)
    (hafter : (replay small large limit).Within after) :
    (replay small large limit).Within host := by
  intro hindexed fact hfact
  obtain ⟨hindexed', hextends⟩ := h hindexed
  exact hafter hindexed' fact (hextends.declares hfact)

/-- Where the second indexer is refused, its model says no more than it should. -/
theorem stopped_of_within {host other : Host Model}
    (h : (replay small large limit).Hosts host other)
    (hwithin : (replay small large limit).Within host) :
    (replay small large limit).Stopped other := by
  refine ⟨h.coherent', fun fact hfact => ?_⟩
  rcases (h.declares fact).1 hfact with hlarge | hhost
  · exact Or.inl hlarge
  · exact Or.inr (hwithin h.coherent.indexed fact hhost)

/-- A request that both indexers let through is one deed on both models. -/
theorem later_of_means {host after other after' : Host Model} {request request' : Request}
    {deed : Deed} (hhosts : (replay small large limit).Hosts host other)
    (hmeans : request.Means host.state deed) (hmeans' : request'.Means other.state deed)
    (hafter : after.state = (request.fulfil host.state).2)
    (hafter' : after'.state = (request'.fulfil other.state).2) :
    (request.fulfil host.state).1.Alike after.state after'.state (request'.fulfil other.state).1 ∧
      (replay small large limit).Later host other after after' := by
  obtain ⟨hgains, hanswered⟩ := Request.gains_fulfil hhosts.coherent hmeans
  obtain ⟨hgains', hanswered'⟩ := Request.gains_fulfil hhosts.coherent' hmeans'
  rw [← hafter] at hgains hanswered
  rw [← hafter'] at hgains' hanswered'
  refine ⟨Deed.alike_of_answered hanswered hanswered' ?_, hhosts.step hgains hgains', ?_⟩
  · exact fun fact hfact => (hhosts.declares fact).2 (Or.inr hfact)
  · exact fun _ _ hvalue => Value.Alike.mono hvalue hgains.locate hgains'.locate

theorem lawful_replay : (replay small large limit).Lawful processors processors [] where
  plain _ h := .plain h
  sequence h := Value.Alike.sequence?_eq h
  underflow _ := rfl
  report _ h := ⟨h, fun _ _ hvalue => hvalue⟩
  dispatch := by
    intro opcode qualifier values others host other outcome after hhosts hvalues hrun _ hwithin
    obtain ⟨check, hcheck, hresults⟩ := Declarations.run_dispatch opcode qualifier
    have hresult := hresults values host
    have hresult' := hresults others other
    rw [ActionM.Results, hrun] at hresult
    rcases hrequest' : check others with error | request'
    · rw [hrequest'] at hresult'
      obtain ⟨after', hrun', hafter'⟩ := hresult'.exists_run
      refine ⟨.error error, after', hrun', Or.inr ⟨⟨error, rfl⟩, ?_⟩⟩
      have hgrows := Declarations.moves_grows.dispatch hrun
      have hstopped := stopped_of_within hhosts (within_of_grows hgrows hwithin)
      show after'.state.Coherent ∧ _
      rw [hafter']
      exact hstopped
    · have hboth : ∃ request deed, check values = .ok request ∧ request.Means host.state deed ∧
          request'.Means other.state deed := by
        rcases hcheck with hnothing | ⟨kind, hkind⟩
        · rw [hnothing] at hrequest'
          cases hrequest'
          exact ⟨.nothing, .nothing, hnothing values, .nothing, .nothing⟩
        · rw [hkind] at hrequest'
          obtain ⟨request, deed, hrequest, hmeans⟩ :=
            kind.exists_request_of_alike (Arguments.alike_of_forall₂ hvalues) hrequest'
          exact ⟨request, deed, (hkind values).trans hrequest, hmeans⟩
      obtain ⟨request, deed, hrequest, hmeans, hmeans'⟩ := hboth
      rw [hrequest] at hresult
      rw [hrequest'] at hresult'
      obtain ⟨after', hrun', hafter'⟩ := hresult'.exists_run
      obtain ⟨hvalue, hlater⟩ := later_of_means hhosts hmeans hmeans'
        (congrArg Prod.snd hresult) hafter'
      refine ⟨_, after', hrun', Or.inl ⟨?_, hlater⟩⟩
      rw [show outcome = _ from congrArg Prod.fst hresult]
      exact .ok hvalue
  within :=
    { refl := fun _ h => h
      trans := fun h h' hafter => h (h' hafter)
      report := fun _ _ h => h
      dispatch := fun hrun => within_of_grows (Declarations.moves_grows.dispatch hrun) }

end Simulation

/-- What the second indexer comes to, with a model `other` and a result `result'`, when the first
one ends with `model` and `result`. -/
structure Model.Replays (small large model other : Model) (result result' : Except RunError Value) :
    Prop where
  coherent : other.Coherent
  /-- The second model has learnt nothing but what the first one says. -/
  declares : ∀ fact, other.Declares fact → large.Declares fact ∨ model.Declares fact
  failed : ∀ error, result = .error error → ∃ error', result' = .error error'
  tracks : ∀ value, result' = .ok value → Tracks small large model other

namespace Indexing

open Simulation (replay lawful_replay)

variable {levels levels' : Nat} {body : Sequence} {machine other after : Machine Model}
  {result : Except RunError Value}

/-- An indexer whose model says more indexes a sequence as the first one does, or stops with an
error. -/
theorem replay_index (hlevels : levels ≤ levels') (hmachine : machine.host.state.Coherent)
    (hother : other.host.state.Coherent)
    (hfacts : ∀ fact, machine.host.state.Declares fact → other.host.state.Declares fact)
    (hmemory : machine.memory.Alike (Value.Alike machine.host.state other.host.state) []
      other.memory)
    (h : (index levels body).Ends machine result after) :
    ∃ result' after', (index levels' body).Ends other result' after' ∧
      machine.host.state.Replays other.host.state after.host.state after'.host.state
        result result' := by
  rw [ends_index_iff] at h
  -- What the first indexer ends with is the limit of what the second one may learn.
  have law : (replay machine.host.state other.host.state after.host.state.Declares).Lawful
      processors processors [] := lawful_replay
  obtain ⟨result', after', hends', hending⟩ :=
    Simulation.nests_runInFrame law hlevels machine.memory.root other.memory.root body machine other
      ⟨.start hmachine hother hfacts, hmemory⟩ hmemory.root result after h (fun _ _ => trivial)
      (fun _ _ hfact => hfact)
  refine ⟨result', after', ends_index_iff.2 hends', ?_⟩
  cases hending with
  | together houtcomes hafter _ =>
    have htracks : Model.Tracks _ _ _ _ := hafter.hosts
    refine ⟨htracks.coherent', fun fact hfact => (htracks.declares fact).1 hfact, ?_,
      fun _ _ => htracks⟩
    rintro error rfl
    cases houtcomes
    exact ⟨error, rfl⟩
  | stopped hresult hstopped =>
    subst hresult
    exact ⟨hstopped.1, hstopped.2, fun _ _ => ⟨_, rfl⟩, nofun⟩

end Indexing

end ClassIndex
