import ClassIndex.Proofs.Coherence
import ClassIndex.Proofs.Sessions
import ClassIndex.Program.Demo
import Mathlib.Data.Set.Card

/-!
# The catalogue is in order

The catalogue keeps its classes twice: in a list, in order of registration, and in a map, by name.
`Model.Catalogued` says that the two agree with each other and with the records of the classes.
Every request keeps this up (`Request.catalogued_fulfil`), whatever the identities that it is made
with, so it holds of every model that indexers can lead to (`catalogued_of_filled`): there may be
any number of them, each with any root and any values on its stack, and their runs may fail.
-/

namespace ClassIndex

namespace Model

/-- The list and the map of the catalogue hold the same classes, each under its own name, and none
of them is a singleton class. -/
structure Catalogued (model : Model) : Prop where
  bound : ∀ id ∈ model.catalogue.order, id.index < model.classes.size
  nodup : model.catalogue.order.Nodup
  /-- A listed class is found under its own name. -/
  found : ∀ id ∈ model.catalogue.order, model.catalogue.find? (model.fullname id) = some id
  /-- A class that is found under a name has that name and is listed. -/
  named : ∀ name id, model.catalogue.find? name = some id →
    model.fullname id = name ∧ id ∈ model.catalogue.order
  kind : ∀ id ∈ model.catalogue.order, (model.classAt id).kind ≠ .singleton

theorem catalogued_of_empty {model : Model} (h : model.catalogue = {}) : model.Catalogued := by
  have horder : model.catalogue.order = [] := by
    rw [h]
  have hfind (name : String) : model.catalogue.find? name = none := by
    rw [h]
    exact Std.TreeMap.getElem?_emptyc
  exact
    { bound := by simp [horder]
      nodup := by simp [horder]
      found := by simp [horder]
      named := by simp [hfind]
      kind := by simp [horder] }

/-- There are as many listed classes as registered names. -/
theorem Catalogued.encard_names {model : Model} (h : model.Catalogued) :
    {name | (model.catalogue.find? name).isSome}.encard = model.catalogue.size := by
  have himage : {name | (model.catalogue.find? name).isSome} =
      model.fullname '' {id | id ∈ model.catalogue.order} := by
    ext name
    constructor
    · intro hname
      obtain ⟨id, hid⟩ := Option.isSome_iff_exists.1 hname
      obtain ⟨hfullname, hlisted⟩ := h.named name id hid
      exact ⟨id, hlisted, hfullname⟩
    · rintro ⟨id, hlisted, rfl⟩
      exact Option.isSome_iff_exists.2 ⟨id, h.found id hlisted⟩
  have hinjective : Set.InjOn model.fullname {id | id ∈ model.catalogue.order} := by
    intro id hid other hother hsame
    have hfound := h.found id hid
    rw [hsame, h.found other hother] at hfound
    exact (Option.some.inj hfound).symm
  have hlist : {id | id ∈ model.catalogue.order} = (model.catalogue.order.toFinset : Set ClassId) :=
    by simp
  rw [himage, hinjective.encard_image, hlist, Set.encard_coe_eq_coe_finsetCard,
    List.toFinset_card_of_nodup h.nodup]
  rfl

/-! ## Operations -/

/-- Every class of the first model is in the second one, with the same name and of the same kind. -/
def KeepsHeadings (model after : Model) : Prop :=
  ∀ id : ClassId, id.index < model.classes.size →
    id.index < after.classes.size ∧ after.fullname id = model.fullname id ∧
      (after.classAt id).kind = (model.classAt id).kind

section Operations

variable {model after : Model} {id : ClassId}

theorem KeepsHeadings.trans {between : Model} (h₁ : model.KeepsHeadings between)
    (h₂ : between.KeepsHeadings after) : model.KeepsHeadings after := by
  intro id hid
  obtain ⟨hbound, hfullname, hkind⟩ := h₁ id hid
  obtain ⟨hbound', hfullname', hkind'⟩ := h₂ id hbound
  exact ⟨hbound', hfullname'.trans hfullname, hkind'.trans hkind⟩

theorem keepsHeadings_of_push {record : ClassRecord}
    (hclasses : after.classes = model.classes.push record) : model.KeepsHeadings after := by
  intro id hid
  have hsize : after.classes.size = model.classes.size + 1 := by
    rw [hclasses, Array.size_push]
  refine ⟨by omega, ?_, ?_⟩
  · rw [Model.fullname, classAt_of_push hclasses hid]
    rfl
  · rw [classAt_of_push hclasses hid]

theorem keepsHeadings_modifyClass {change : ClassRecord → ClassRecord}
    (hfullname : ∀ record, (change record).fullname = record.fullname)
    (hkind : ∀ record, (change record).kind = record.kind) :
    model.KeepsHeadings (model.modifyClass id change) := by
  intro other hother
  refine ⟨(size_modifyClass change).symm ▸ hother, fullname_modifyClass (hfullname _) other, ?_⟩
  by_cases heq : other = id
  · subst heq
    rw [classAt_modifyClass_self hother, hkind]
  · rw [classAt_modifyClass_ne heq]

theorem keepsHeadings_companion (model : Model) (id : ClassId) :
    model.KeepsHeadings (model.companion id).2 := by
  rcases hcompanion : (model.classAt id).companion with _ | other
  · rw [companion_of_none hcompanion]
    have hadd : model.KeepsHeadings (model.addClass (.companionOf id (model.classAt id))).2 :=
      keepsHeadings_of_push rfl
    exact hadd.trans (keepsHeadings_modifyClass (fun _ => rfl) fun _ => rfl)
  · rw [companion_of_some hcompanion]
    exact fun given hgiven => ⟨hgiven, rfl, rfl⟩

theorem catalogue_companion (model : Model) (id : ClassId) :
    (model.companion id).2.catalogue = model.catalogue := by
  rcases hcompanion : (model.classAt id).companion with _ | other
  · rw [companion_of_none hcompanion]
    rfl
  · rw [companion_of_some hcompanion]

/-- What is not registered does not matter to the catalogue. -/
theorem Catalogued.of_keepsHeadings (h : model.Catalogued) (hkeeps : model.KeepsHeadings after)
    (hcatalogue : after.catalogue = model.catalogue) : after.Catalogued where
  bound id hid := by
    rw [hcatalogue] at hid
    exact (hkeeps id (h.bound id hid)).1
  nodup := by
    rw [hcatalogue]
    exact h.nodup
  found id hid := by
    rw [hcatalogue] at hid ⊢
    rw [(hkeeps id (h.bound id hid)).2.1]
    exact h.found id hid
  named name id hid := by
    rw [hcatalogue] at hid ⊢
    obtain ⟨hfullname, hlisted⟩ := h.named name id hid
    rw [(hkeeps id (h.bound id hlisted)).2.1]
    exact ⟨hfullname, hlisted⟩
  kind id hid := by
    rw [hcatalogue] at hid
    rw [(hkeeps id (h.bound id hid)).2.2]
    exact h.kind id hid

/-- A name that is new to the catalogue is registered with a class of that name. -/
theorem Catalogued.registering {name : String} {record : ClassRecord} (h : model.Catalogued)
    (hnone : model.catalogue.find? name = none) (hfullname : record.fullname = name)
    (hkind : record.kind ≠ .singleton) : (model.registering name record).Catalogued := by
  have hkeeps : model.KeepsHeadings (model.registering name record) := keepsHeadings_of_push rfl
  have hnew : (model.registering name record).fullname ⟨model.classes.size⟩ = name := by
    rw [Model.fullname, classAt_registering_size]
    exact hfullname
  have hmem (id : ClassId) : id ∈ (model.registering name record).catalogue.order ↔
      id ∈ model.catalogue.order ∨ id = ⟨model.classes.size⟩ := by
    show id ∈ model.catalogue.order ++ [⟨model.classes.size⟩] ↔ _
    rw [List.mem_append, List.mem_singleton]
  have hfind (other : String) : (model.registering name record).catalogue.find? other =
      if other = name then some ⟨model.classes.size⟩ else model.catalogue.find? other :=
    Catalogue.find?_register ..
  -- The new name is not that of a listed class, or it would be known.
  have hne : ∀ id ∈ model.catalogue.order, model.fullname id ≠ name := by
    intro id hid heq
    have hfound := h.found id hid
    rw [heq, hnone] at hfound
    cases hfound
  refine ⟨fun id hid => ?_, ?_, fun id hid => ?_, fun other id hid => ?_, fun id hid => ?_⟩
  · rcases (hmem id).1 hid with hold | rfl
    · exact (hkeeps id (h.bound id hold)).1
    · show model.classes.size < (model.classes.push record).size
      rw [Array.size_push]
      omega
  · refine List.nodup_append.2 ⟨h.nodup, List.pairwise_singleton _ _, ?_⟩
    intro id hid last hlast heq
    rw [List.mem_singleton.1 hlast] at heq
    have hbound := h.bound id hid
    rw [heq] at hbound
    exact Nat.lt_irrefl _ hbound
  · rcases (hmem id).1 hid with hold | rfl
    · rw [(hkeeps id (h.bound id hold)).2.1, hfind, if_neg (hne id hold)]
      exact h.found id hold
    · rw [hnew, hfind, if_pos rfl]
  · rw [hfind] at hid
    split at hid
    · rename_i heq
      cases hid
      exact ⟨hnew.trans heq.symm, (hmem _).2 (Or.inr rfl)⟩
    · obtain ⟨hfullname', hlisted⟩ := h.named other id hid
      exact ⟨(hkeeps id (h.bound id hlisted)).2.1.trans hfullname', (hmem id).2 (Or.inl hlisted)⟩
  · rcases (hmem id).1 hid with hold | rfl
    · rw [(hkeeps id (h.bound id hold)).2.2]
      exact h.kind id hold
    · rw [classAt_registering_size]
      exact hkind

end Operations

end Model

/-! ## Requests and runs -/

theorem Declarations.kind_recordFor_ne (flags : ClassFlags) (superclass enclosing : Option ClassId)
    (fullname : String) : (recordFor flags superclass enclosing fullname).kind ≠ .singleton := by
  unfold recordFor
  split <;> simp [ClassRecord.modular, ClassRecord.ordinary]

theorem DeclarationKind.kind_ne_of_request {kind : DeclarationKind} {args : Arguments}
    {enclosing : Option ClassId} {name : String} {record : String → ClassRecord}
    (h : kind.request args = .ok (.define enclosing name record)) (fullname : String) :
    (record fullname).kind ≠ .singleton := by
  cases kind with
  | defineClass =>
    obtain ⟨name, -, h⟩ := except_bind_eq_ok h
    obtain ⟨superclass, -, h⟩ := except_bind_eq_ok h
    obtain ⟨flags, -, h⟩ := except_bind_eq_ok h
    dsimp only at h
    split at h
    · generalize (args.get 3).class? = scope at h
      cases scope <;> cases h
    · cases h
      exact Declarations.kind_recordFor_ne _ _ _ fullname
  | getConstant =>
    obtain ⟨name, -, h⟩ := except_bind_eq_ok h
    cases h
    simp [ClassRecord.placeholder]
  | defineMethod side | findMethod side =>
    simp only [request] at h
    split at h
    · cases h
    · obtain ⟨name, -, h⟩ := except_bind_eq_ok h
      cases h
  | mixIn kind =>
    simp only [request] at h
    split at h <;> cases h

theorem Request.catalogued_fulfil {kind : DeclarationKind} {args : Arguments} {request : Request}
    {model : Model} (hrequest : kind.request args = .ok request) (h : model.Catalogued) :
    (request.fulfil model).2.Catalogued := by
  cases request with
  | nothing | find side id name => exact h
  | define enclosing name record =>
    have hproper : ∀ fullname, (record fullname).IsHeading fullname :=
      DeclarationKind.isProper_of_request hrequest
    show (model.define (model.qualify enclosing name) _).2.Catalogued
    rcases hfind : model.catalogue.find? (model.qualify enclosing name) with _ | id
    · rw [Model.define_of_none hfind]
      exact h.registering hfind (hproper _).fullname
        (DeclarationKind.kind_ne_of_request hrequest _)
    · rw [Model.define_of_some hfind]
      exact h
  | companion id =>
    exact h.of_keepsHeadings (model.keepsHeadings_companion id) (model.catalogue_companion id)
  | method side id name body =>
    have howner : (model.methodOwner side id).2.Catalogued := by
      cases side with
      | instanceSide => exact h
      | classSide =>
        exact h.of_keepsHeadings (model.keepsHeadings_companion id) (model.catalogue_companion id)
    -- The record of the method is added before it is entered, which no class notices.
    have hadded (record : MethodRecord) :
        ((model.methodOwner side id).2.addMethod record).2.Catalogued :=
      howner.of_keepsHeadings (fun given hgiven => ⟨hgiven, rfl, rfl⟩) rfl
    refine (hadded _).of_keepsHeadings (Model.keepsHeadings_modifyClass ?_ ?_) rfl
    all_goals
      intro record
      cases side <;> rfl
  | mixIn kind id source =>
    exact h.of_keepsHeadings (Model.keepsHeadings_modifyClass (fun _ => rfl) fun _ => rfl) rfl

namespace Declarations

theorem moves_catalogued :
    processors.Moves fun host after => host.state.Catalogued → after.state.Catalogued :=
  moves_of_requests (R := fun model after => model.Catalogued → after.Catalogued) (fun _ h => h)
    (fun h₁ h₂ h => h₂ (h₁ h)) fun _ hrequest => Request.catalogued_fulfil hrequest

/-- The body of a singleton class is not registered. -/
theorem catalogue_defineClass_singleton {args : Arguments} {flags : UInt32}
    (hflags : args.flags 4 = .ok flags)
    (hsingleton : ClassFlags.has ⟨flags⟩ .singletonBody = true) (host : Host Model) :
    ((defineClass args).run.run host).2.state.catalogue = host.state.catalogue := by
  have hresults := DeclarationKind.defineClass.run_processor args host
  have hstate : ((defineClass args).run.run host).2.state =
      (Request.answer (DeclarationKind.defineClass.request args) host.state).2 :=
    congrArg Prod.snd hresults
  rw [hstate]
  rcases hrequest : DeclarationKind.defineClass.request args with error | request
  · rfl
  · obtain ⟨name, -, h⟩ := except_bind_eq_ok hrequest
    obtain ⟨superclass, -, h⟩ := except_bind_eq_ok h
    obtain ⟨flags', hflags', h⟩ := except_bind_eq_ok h
    rw [hflags] at hflags'
    cases hflags'
    rw [if_pos hsingleton] at h
    cases h
    rcases (args.get 3).class? with _ | id
    · rfl
    · exact host.state.catalogue_companion id

end Declarations

/-- Models that indexers can fill, one run after another, from one in which nothing is registered.
Each indexer has a memory of its own; classes that are not registered may be there from the start,
since an indexer may have one of them for its root. -/
inductive Model.Filled : Model → Prop
  | unregistered {model : Model} (h : model.catalogue = {}) : Filled model
  | index {levels : Nat} {body : Sequence} {machine after : Machine Model}
      {result : Except RunError Value} (h : Filled machine.host.state)
      (hends : (Indexing.index levels body).Ends machine result after) : Filled after.host.state

theorem Model.Filled.catalogued {model : Model} (h : model.Filled) : model.Catalogued := by
  induction h with
  | unregistered h => exact catalogued_of_empty h
  | index _ hends ih =>
    exact Declarations.moves_catalogued.of_runInFrame _ _ _ _ _ _ (Indexing.ends_index_iff.1 hends)
      ih

namespace Indexing

/-- In every model that indexers can fill, the list and the map of the catalogue agree, there are as
many classes as names, and no class is a singleton class: the body of one is never registered. -/
theorem catalogued_of_filled {model : Model} (h : model.Filled) :
    model.Catalogued ∧
      {name | (model.catalogue.find? name).isSome}.encard = model.catalogue.size ∧
      ∀ (args : Arguments) (flags : UInt32) (host : Host Model), args.flags 4 = .ok flags →
        ClassFlags.has ⟨flags⟩ .singletonBody = true →
        ((Declarations.defineClass args).run.run host).2.state.catalogue = host.state.catalogue :=
  ⟨h.catalogued, h.catalogued.encard_names,
    fun _ _ host hflags hsingleton =>
      Declarations.catalogue_defineClass_singleton hflags hsingleton host⟩

/-- A class that is not registered, to be the root of an indexer. -/
def hosted : Model :=
  (({} : Model).addClass (.placeholder "Host")).2

/-- The body of a singleton class, with a class in it. -/
def inSingleton : Sequence :=
  (Demo.appendClass (.start "singleton class" .classBody) "Part" none Demo.base .empty).leave

/-- Defines a class with a class in its singleton class, and leaves a value too many. -/
def overfull : Sequence :=
  let tool := (Sequence.start "<class:Tool>" .classBody).putSelf.putNil
    |>.defineClass "singleton" inSingleton .singletonBody
  (Demo.appendClass (.start "<main>" .top) "Tool" none tool .empty).putNil.leave

/-- Below an unregistered root, a run that fails at its end has registered two classes of the three
that it made. -/
theorem catalogued_of_filled_hosted :
    ∃ result after, (index 4 overfull).Ends (start (.classRef ⟨0⟩) { state := hosted }) result
        after ∧
      result.isOk = false ∧ after.host.state.classes.size = 4 ∧ after.host.state.Catalogued ∧
      after.host.state.catalogue.order = [⟨1⟩, ⟨3⟩] ∧
      {name | (after.host.state.catalogue.find? name).isSome}.encard = 2 := by
  have hcheck : ((index 4 overfull).run.run (start (.classRef ⟨0⟩) { state := hosted })).any
      (fun ending => ending.1.isOk == false && ending.2.host.state.classes.size == 4 &&
        ending.2.host.state.catalogue.order == [⟨1⟩, ⟨3⟩]) = true := by
    decide +kernel
  obtain ⟨result, after, hends, hrest⟩ := RunM.exists_ends_of_any hcheck
  simp only [Bool.and_eq_true, beq_iff_eq] at hrest
  obtain ⟨⟨hfails, hsize⟩, horder⟩ := hrest
  obtain ⟨hcatalogued, hnames, -⟩ := catalogued_of_filled (.index (.unregistered rfl) hends)
  refine ⟨result, after, hends, hfails, hsize, hcatalogued, horder, ?_⟩
  rw [hnames, Catalogue.size, horder]
  rfl

end Indexing

end ClassIndex
