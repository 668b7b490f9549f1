import ClassIndex.Proofs.Invariants
import ClassIndex.Proofs.Registry
import ClassIndex.Proofs.Reports

/-!
# Constants that are read before they are defined

A constant that is not known yet is registered with a placeholder: an ordinary class without a
superclass and without an enclosing class.  A definition that comes later finds the placeholder
under its name and takes it for the class itself.  So the class keeps its identity, but nothing that
the definition states about it is entered: a module stays an ordinary class, and a class gets
neither its superclass nor its enclosing class.

Which names were defined can be told from the events.  A registered class whose definition was not
seen is a placeholder (`Host.Provisional`), in every host that indexers can fill, whatever they have
for their roots.  Hence `asDefined_iff_of_undefined`: the first definition of a name is entered as
it stands if the name is new, and otherwise only if it states no more than a placeholder says.
-/

namespace ClassIndex

open Declarations (processors)

namespace ClassRecord

/-- The record of a class about which nothing is known but its name. -/
structure IsPlaceholder (record : ClassRecord) : Prop where
  kind : record.kind = .ordinary
  superclass : record.superclass = none
  enclosing : record.enclosing = none

/-- The record is as a definition states it: of the right kind, inside the right class and, if it is
not a module, below the right superclass. -/
structure AsDefined (flags : ClassFlags) (superclass enclosing : Option ClassId)
    (record : ClassRecord) : Prop where
  kind : record.kind = if flags.has .moduleBody then .modular else .ordinary
  superclass : flags.has .moduleBody = false → record.superclass = superclass
  enclosing : record.enclosing = enclosing

theorem asDefined_recordFor (flags : ClassFlags) (superclass enclosing : Option ClassId)
    (fullname : String) :
    (Declarations.recordFor flags superclass enclosing fullname).AsDefined flags superclass
      enclosing := by
  unfold Declarations.recordFor
  split
  · rename_i hmodule
    refine ⟨(if_pos hmodule).symm, fun hordinary => ?_, rfl⟩
    rw [hmodule] at hordinary
    cases hordinary
  · rename_i hordinary
    exact ⟨(if_neg hordinary).symm, fun _ => rfl, rfl⟩

/-- A placeholder is as a definition states it just if the definition states nothing. -/
theorem IsPlaceholder.asDefined_iff {record : ClassRecord} (h : record.IsPlaceholder)
    {flags : ClassFlags} {superclass enclosing : Option ClassId} :
    record.AsDefined flags superclass enclosing ↔
      flags.has .moduleBody = false ∧ superclass = none ∧ enclosing = none := by
  constructor
  · intro hdefined
    have hordinary : flags.has .moduleBody = false := by
      by_contra hmodule
      have hkind := hdefined.kind
      rw [h.kind, if_pos (Bool.not_eq_false _ ▸ hmodule)] at hkind
      cases hkind
    refine ⟨hordinary, ?_, ?_⟩
    · rw [← hdefined.superclass hordinary, h.superclass]
    · rw [← hdefined.enclosing, h.enclosing]
  · rintro ⟨hordinary, rfl, rfl⟩
    refine ⟨?_, fun _ => h.superclass, h.enclosing⟩
    rw [h.kind, hordinary]
    rfl

end ClassRecord

/-! ## Placeholders -/

/-- Every registered class whose definition was not seen is a placeholder. -/
def Host.Provisional (host : Host Model) : Prop :=
  ∀ name id, host.state.catalogue.find? name = some id → .foundClass name ∉ host.events →
    (host.state.classAt id).IsPlaceholder

theorem Request.find?_fulfil {request : Request} {model : Model} {name : String} {id : ClassId}
    (h : (request.fulfil model).2.catalogue.find? name = some id) :
    model.catalogue.find? name = some id ∨
      ∃ enclosing given record, request = .define enclosing given record ∧
        name = model.qualify enclosing given ∧
        (request.fulfil model).2.classAt id = record name := by
  cases request with
  | nothing | find _ _ _ | mixIn _ _ _ => exact Or.inl h
  | companion base =>
    replace h : (model.companion base).2.catalogue.find? name = some id := h
    rw [model.catalogue_companion base] at h
    exact Or.inl h
  | method side base given body =>
    replace h : (model.methodOwner side base).2.catalogue.find? name = some id := h
    cases side with
    | instanceSide => exact Or.inl h
    | classSide =>
      replace h : (model.companion base).2.catalogue.find? name = some id := h
      rw [model.catalogue_companion base] at h
      exact Or.inl h
  | define enclosing given record =>
    replace h : (model.define (model.qualify enclosing given)
      (record (model.qualify enclosing given))).2.catalogue.find? name = some id := h
    rcases hfind : model.catalogue.find? (model.qualify enclosing given) with _ | known
    · rw [Model.define_of_none hfind] at h
      replace h : (model.catalogue.register (model.qualify enclosing given) _).find? name =
        some id := h
      rw [Catalogue.find?_register] at h
      split at h
      · rename_i hname
        cases h
        refine Or.inr ⟨enclosing, given, record, rfl, hname, ?_⟩
        show (model.define (model.qualify enclosing given) _).2.classAt _ = _
        rw [Model.define_of_none hfind, Model.classAt_registering_size, hname]
      · exact Or.inl h
    · rw [Model.define_of_some hfind] at h
      exact Or.inl h

theorem Host.Provisional.dispatch {host after : Host Model} {opcode : Opcode}
    {qualifier : Option String} {values : List Value} {outcome : Except RunError Value}
    (h : host.Provisional) (hcatalogued : host.state.Catalogued) (hindexed : host.state.Indexed)
    (hrun : (processors.dispatch opcode qualifier values).run.run host = (outcome, after)) :
    after.Provisional := by
  intro name id hfind hunseen
  obtain ⟨hevents, hcases⟩ := Declarations.dispatch_cases hrun
  have hbefore : .foundClass name ∉ host.events := fun hseen => hunseen (hevents _ hseen)
  rcases hcases with hsame | ⟨kind, request, -, hrequest, hstate, hprocessor⟩
  · rw [hsame] at hfind ⊢
    exact h name id hfind hbefore
  · rw [hstate] at hfind ⊢
    rcases Request.find?_fulfil hfind with hold | ⟨enclosing, given, record, rfl, rfl, hrecord⟩
    · -- A class that is known keeps what it says.
      have hproper := DeclarationKind.isProper_of_request hrequest
      have hextends := (Request.grows_fulfil hproper host.state hindexed).2
      have hkept := hextends.records id (hcatalogued.bound id (hcatalogued.named name id hold).2)
      have hplaceholder := h name id hold hbefore
      exact ⟨hkept.kind.trans hplaceholder.kind, hkept.superclass.trans hplaceholder.superclass,
        hkept.enclosing.trans hplaceholder.enclosing⟩
    · obtain ⟨hname, hkind⟩ := DeclarationKind.eq_of_define hrequest
      rcases hkind with ⟨-, rfl⟩ | ⟨rfl, rfl, superclass, flags, hsuperclass, hflags, hsingleton, -⟩
      · rw [hrecord]
        exact ⟨rfl, rfl, rfl⟩
      · -- A definition is reported, so that the name has been seen.
        have hdefined := Declarations.run_defineClass host hname hsuperclass hflags hsingleton
        cases hprocessor.symm.trans hdefined
        exact absurd Array.mem_push_self hunseen

theorem Declarations.keeps_catalogued :
    Keeps (fun model => model.Catalogued ∧ model.Indexed) fun _ _ => True where
  plain _ := trivial
  good hrequest hmodel _ := by
    have hproper := DeclarationKind.isProper_of_request hrequest
    exact ⟨Request.catalogued_fulfil hrequest hmodel.1,
      (Request.grows_fulfil hproper _ hmodel.2).1⟩
  answer _ _ _ := trivial
  mono _ _ _ _ _ := trivial

theorem Declarations.preserves_provisional :
    processors.Preserves
      (fun host => (host.state.Catalogued ∧ host.state.Indexed) ∧ host.Provisional)
      fun _ _ => True := by
  refine keeps_catalogued.preserves.and (fun event hprovisional name id hfind hunseen => ?_)
    fun _ hmodel hprovisional _ hrun => hprovisional.dispatch hmodel.1 hmodel.2 hrun
  exact hprovisional name id hfind fun hseen => hunseen (Array.mem_push_of_mem _ hseen)

/-- Hosts that indexers can fill, from one in whose model nothing is registered.  Indexers may have
any values for their roots and on their stacks; classes that are not registered may be there from
the start.  The host is seen between their runs and in the midst of them. -/
inductive Host.Filled : Host Model → Prop
  | unregistered {host : Host Model} (hcatalogue : host.state.catalogue = {})
      (hindexed : host.state.Indexed) : Filled host
  | index {levels : Nat} {body : Sequence} {machine after : Machine Model}
      {result : Except RunError Value} (h : Filled machine.host)
      (hends : (Indexing.index levels body).Ends machine result after) : Filled after.host
  | during {levels : Nat} {body : Sequence} {machine between : Machine Model}
      (h : Filled machine.host)
      (hpasses : Machine.Passes processors levels machine.memory.root body machine between) :
      Filled between.host
  | report {host : Host Model} (outcome : Indexing.Outcome) (h : Filled host) :
      Filled (host.reporting outcome.event)

theorem Host.Filled.provisional {host : Host Model} (h : host.Filled) :
    (host.state.Catalogued ∧ host.state.Indexed) ∧ host.Provisional := by
  have preserves := Declarations.preserves_provisional
  have hall (memory : Memory) : memory.All fun _ => True :=
    ⟨fun _ _ => trivial, fun _ _ => trivial⟩
  induction h with
  | unregistered hcatalogue hindexed =>
    refine ⟨⟨Model.catalogued_of_empty hcatalogue, hindexed⟩, fun name id hfind => ?_⟩
    rw [hcatalogue, show ({} : Catalogue).find? name = none from Std.TreeMap.getElem?_emptyc]
      at hfind
    cases hfind
  | index _ hends ih => exact (preserves.index ⟨ih, hall _⟩ hends).upholds.good
  | during _ hpasses ih => exact (preserves.of_passes ⟨ih, hall _⟩ trivial hpasses).upholds.good
  | report outcome _ ih => exact preserves.report outcome.event ih

/-! ## Definitions -/

namespace Declarations

variable {args : Arguments} {name : String} {superclass : Option ClassId} {flags : UInt32}
  {host : Host Model}

theorem run_defineClass_of_new (hname : args.name 0 = .ok name)
    (hsuperclass : args.classOrNil 2 = .ok superclass) (hflags : args.flags 4 = .ok flags)
    (hsingleton : ClassFlags.has ⟨flags⟩ .singletonBody = false)
    (hnew : host.state.catalogue.find? (host.state.qualify (args.get 3).class? name) = none) :
    ∃ id after, (defineClass args).run.run host = (.ok (.classRef id), after) ∧
      (after.state.classAt id).AsDefined ⟨flags⟩ superclass (args.get 3).class? := by
  refine ⟨_, _, run_defineClass host hname hsuperclass hflags hsingleton, ?_⟩
  dsimp only [Model.defineIn]
  rw [Model.define_of_none hnew, Model.classAt_registering_size]
  exact ClassRecord.asDefined_recordFor _ _ _ _

theorem run_defineClass_of_known {id : ClassId} (hname : args.name 0 = .ok name)
    (hsuperclass : args.classOrNil 2 = .ok superclass) (hflags : args.flags 4 = .ok flags)
    (hsingleton : ClassFlags.has ⟨flags⟩ .singletonBody = false)
    (hknown : host.state.catalogue.find? (host.state.qualify (args.get 3).class? name) =
      some id) :
    (defineClass args).run.run host = (.ok (.classRef id),
      host.reporting (.foundClass (host.state.qualify (args.get 3).class? name))) := by
  rw [run_defineClass host hname hsuperclass hflags hsingleton]
  dsimp only [Model.defineIn]
  rw [Model.define_of_some hknown]
  rfl

end Declarations

namespace Indexing

/-- The first definition of a name yields the class that stands for the name, if there is one, and
leaves the model alone then.  So the class is as the definition states it if the name is new, or if
it is that of a class without a superclass and without an enclosing class, and not otherwise. -/
theorem asDefined_iff_of_undefined {host : Host Model} (h : host.Filled) {args : Arguments}
    {name : String} {superclass : Option ClassId} {flags : UInt32}
    (hname : args.name 0 = .ok name) (hsuperclass : args.classOrNil 2 = .ok superclass)
    (hflags : args.flags 4 = .ok flags)
    (hsingleton : ClassFlags.has ⟨flags⟩ .singletonBody = false)
    (hundefined : .foundClass (host.state.qualify (args.get 3).class? name) ∉ host.events) :
    let enclosing := (args.get 3).class?
    let known := host.state.catalogue.find? (host.state.qualify enclosing name)
    ∃ id after, (Declarations.defineClass args).run.run host = (.ok (.classRef id), after) ∧
      (known.isSome → known = some id ∧ after.state = host.state) ∧
      ((after.state.classAt id).AsDefined ⟨flags⟩ superclass enclosing ↔
        known = none ∨
          ClassFlags.has ⟨flags⟩ .moduleBody = false ∧ superclass = none ∧ enclosing = none) := by
  intro enclosing known
  rcases hknown : known with _ | id
  · obtain ⟨id, after, hrun, hdefined⟩ :=
      Declarations.run_defineClass_of_new hname hsuperclass hflags hsingleton hknown
    exact ⟨id, after, hrun, nofun, fun _ => Or.inl rfl, fun _ => hdefined⟩
  · have hrun := Declarations.run_defineClass_of_known hname hsuperclass hflags hsingleton hknown
    refine ⟨id, _, hrun, fun _ => ⟨rfl, rfl⟩, ?_⟩
    have hplaceholder := h.provisional.2 _ id hknown hundefined
    exact hplaceholder.asDefined_iff.trans ⟨Or.inr, fun hstated => hstated.resolve_left nofun⟩

/-- Reads a constant that nothing defines. -/
def mentioning : Sequence :=
  (Sequence.start "<main>" .top).putNil.getConstant "Later" |>.leave

/-- The definition of that constant at the top level. -/
def definitionOfLater (flags : ClassFlags) : Arguments where
  processor := Opcode.defineClass.name
  values := [.literal (.symbol "Later"), .nil, .nil, .nil,
    .literal (.integer (Int64.ofInt flags.bits.toNat))]

theorem name_definitionOfLater (flags : ClassFlags) :
    (definitionOfLater flags).name 0 = .ok "Later" := rfl

theorem flags_definitionOfLater (flags : ClassFlags) :
    (definitionOfLater flags).flags 4 = .ok flags.bits :=
  Arguments.flags_of_bits rfl

theorem filled_empty : ({ state := {} } : Host Model).Filled :=
  .unregistered rfl Model.coherent_empty.indexed

/-- Once the constant was read, it is an ordinary class, and no definition of it was seen. -/
theorem exists_ends_mentioning :
    ∃ result after, (index 1 mentioning).Ends (start .nil { state := {} }) result after ∧
      .foundClass "Later" ∉ after.host.events ∧
      after.host.state.catalogue.find? "Later" = some ⟨0⟩ ∧
      (after.host.state.classAt ⟨0⟩).kind = .ordinary := by
  have hcheck : ((index 1 mentioning).run.run (start .nil { state := {} })).any (fun ending =>
      ending.2.host.events.all (fun event => match event with
          | .foundClass _ => false
          | _ => true) &&
        ending.2.host.state.catalogue.find? "Later" == some ⟨0⟩ &&
        decide ((ending.2.host.state.classAt ⟨0⟩).kind = .ordinary)) = true := by
    decide +kernel
  obtain ⟨result, after, hends, hrest⟩ := RunM.exists_ends_of_any hcheck
  simp only [Bool.and_eq_true, beq_iff_eq, decide_eq_true_eq] at hrest
  obtain ⟨⟨hevents, hknown⟩, hkind⟩ := hrest
  refine ⟨result, after, hends, fun hseen => ?_, hknown, hkind⟩
  cases Array.all_eq_true'.1 hevents _ hseen

/-- After the constant was read, the definition of a plain class finds it as it should be, and that
of a module does not. -/
theorem asDefined_iff_of_undefined_later :
    ∃ result after, (index 1 mentioning).Ends (start .nil { state := {} }) result after ∧
      .foundClass "Later" ∉ after.host.events ∧
      after.host.state.catalogue.find? "Later" = some ⟨0⟩ ∧
      (∃ final, (Declarations.defineClass (definitionOfLater .empty)).run.run after.host =
          (.ok (.classRef ⟨0⟩), final) ∧
        (final.state.classAt ⟨0⟩).AsDefined .empty none none) ∧
      ∃ final, (Declarations.defineClass (definitionOfLater .moduleBody)).run.run after.host =
          (.ok (.classRef ⟨0⟩), final) ∧
        ¬ (final.state.classAt ⟨0⟩).AsDefined .moduleBody none none := by
  obtain ⟨result, after, hends, hundefined, hknown, -⟩ := exists_ends_mentioning
  have hfilled : after.host.Filled := .index filled_empty hends
  have hsome : (after.host.state.catalogue.find? "Later").isSome = true := by
    rw [hknown]
    rfl
  refine ⟨result, after, hends, hundefined, hknown, ?_, ?_⟩
  · obtain ⟨id, final, hrun, hidentity, hstated⟩ := asDefined_iff_of_undefined hfilled
      (name_definitionOfLater .empty) rfl (flags_definitionOfLater .empty) rfl hundefined
    obtain rfl : id = ⟨0⟩ := Option.some.inj ((hidentity hsome).1.symm.trans hknown)
    exact ⟨final, hrun, hstated.2 (Or.inr ⟨rfl, rfl, rfl⟩)⟩
  · obtain ⟨id, final, hrun, hidentity, hstated⟩ := asDefined_iff_of_undefined hfilled
      (name_definitionOfLater .moduleBody) rfl (flags_definitionOfLater .moduleBody) rfl hundefined
    obtain rfl : id = ⟨0⟩ := Option.some.inj ((hidentity hsome).1.symm.trans hknown)
    refine ⟨final, hrun, fun hdefined => ?_⟩
    rcases hstated.1 hdefined with hnone | ⟨hordinary, -⟩
    · cases hknown.symm.trans hnone
    · cases hordinary

/-- A module whose constant was read before its first definition is entered as an ordinary class. -/
theorem module_after_mention_not_asDefined :
    ∃ host : Host Model, host.Filled ∧ .foundClass "Later" ∉ host.events ∧
      ∃ id final, (Declarations.defineClass (definitionOfLater .moduleBody)).run.run host =
          (.ok (.classRef id), final) ∧
        (final.state.classAt id).kind = .ordinary ∧
        ¬ (final.state.classAt id).AsDefined .moduleBody none none := by
  obtain ⟨result, after, hends, hundefined, hknown, hkind⟩ := exists_ends_mentioning
  have hrun := Declarations.run_defineClass_of_known (name_definitionOfLater .moduleBody) rfl
    (flags_definitionOfLater .moduleBody) rfl hknown
  refine ⟨after.host, .index filled_empty hends, hundefined, _, _, hrun, hkind,
    fun hdefined => ?_⟩
  cases hkind.symm.trans hdefined.kind

end Indexing

end ClassIndex
