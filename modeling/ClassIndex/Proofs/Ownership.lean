import ClassIndex.Proofs.Invariants
import ClassIndex.Proofs.Liveness
import ClassIndex.Proofs.Permanence
import ClassIndex.Proofs.Reindexing

/-!
# Owners and singleton classes

In a model that indexing can lead to, methods and classes agree: what a table holds under a name is
a method of that name, whose owner is the class or, for a method of the class itself, its singleton
class; and a singleton class is attached to the class that it belongs to.  `Model.Owned` is the
invariant.  A request keeps it (`Owned.fulfil`) as long as it is about classes of the model, and
indexers hold no others (`keeps_owned`).

Owners and attached classes are links that may be lost.  In the towers of registered classes they
are not, since the registered classes keep all of them alive (`orderly_of_reached`).
-/

namespace ClassIndex

/-- The record is that of the singleton class of a class. -/
structure ClassRecord.IsCompanionOf (id : ClassId) (record : ClassRecord) : Prop where
  kind : record.kind = .singleton
  attached : record.attached = some id
  superclass : record.superclass = none
  enclosing : record.enclosing = none

theorem ClassRecord.isCompanionOf_companionOf (id : ClassId) (record : ClassRecord) :
    (companionOf id record).IsCompanionOf id :=
  ⟨rfl, rfl, rfl, rfl⟩

namespace Model

variable {model after : Model} {id given owner : ClassId} {side : MethodSide}

/-! ## Singleton classes -/

/-- Every singleton class is there and is attached to the class that has it. -/
def Paired (model : Model) : Prop :=
  ∀ id companion, (model.classAt id).companion = some companion →
    companion.index < model.classes.size ∧ (model.classAt companion).IsCompanionOf id

theorem paired_empty : ({} : Model).Paired := by
  intro id companion h
  cases h

/-- A singleton class belongs to one class only. -/
theorem Paired.injective (h : model.Paired) {singleton : ClassId}
    (hid : (model.classAt id).companion = some singleton)
    (hgiven : (model.classAt given).companion = some singleton) : id = given := by
  have hattached := (h id singleton hid).2.attached
  rw [(h given singleton hgiven).2.attached] at hattached
  exact (Option.some.inj hattached).symm

theorem Paired.of_push (h : model.Paired) {record : ClassRecord}
    (hclasses : after.classes = model.classes.push record) (hrecord : record.companion = none) :
    after.Paired := by
  have hsize : after.classes.size = model.classes.size + 1 := by
    rw [hclasses, Array.size_push]
  intro id companion hcompanion
  have hlt : id.index < model.classes.size := by
    by_contra hge
    by_cases heq : id.index = model.classes.size
    · have hid : id = ⟨model.classes.size⟩ := congrArg ClassId.mk heq
      rw [hid, classAt_of_push_size hclasses, hrecord] at hcompanion
      cases hcompanion
    · rw [classAt_of_size_le (by omega)] at hcompanion
      cases hcompanion
  rw [classAt_of_push hclasses hlt] at hcompanion
  obtain ⟨hbound, hpaired⟩ := h id companion hcompanion
  rw [classAt_of_push hclasses hbound]
  exact ⟨by omega, hpaired⟩

/-- A record that keeps its place may be changed. -/
theorem Paired.modifyClass (h : model.Paired) {change : ClassRecord → ClassRecord}
    (hcompanion : ∀ record, (change record).companion = record.companion)
    (hplace : ∀ record base, record.IsCompanionOf base → (change record).IsCompanionOf base) :
    (model.modifyClass id change).Paired := by
  intro given companion hgiven
  have hold : (model.classAt given).companion = some companion := by
    by_cases heq : given = id
    · subst heq
      have hbound := index_lt_of_companion hgiven
      rw [size_modifyClass] at hbound
      rwa [classAt_modifyClass_self hbound, hcompanion] at hgiven
    · rwa [classAt_modifyClass_ne heq] at hgiven
  obtain ⟨hbound, hpaired⟩ := h given companion hold
  refine ⟨by rwa [size_modifyClass], ?_⟩
  by_cases heq : companion = id
  · subst heq
    rw [classAt_modifyClass_self hbound]
    exact hplace _ _ hpaired
  · rw [classAt_modifyClass_ne heq]
    exact hpaired

theorem Paired.attaching (h : model.Paired) (hid : id.index < model.classes.size) :
    (model.attaching id).Paired := by
  have hsize : (model.attaching id).classes.size = model.classes.size + 1 :=
    (size_modifyClass _).trans (Array.size_push ..)
  intro given companion hgiven
  by_cases heq : given = id
  · subst heq
    rw [classAt_attaching_self hid] at hgiven
    cases hgiven
    rw [classAt_attaching_size hid, hsize]
    exact ⟨Nat.lt_succ_self _, ClassRecord.isCompanionOf_companionOf _ _⟩
  · have hlt : given.index < model.classes.size := by
      by_contra hge
      have hbound := index_lt_of_companion hgiven
      have hlast : given = ⟨model.classes.size⟩ := congrArg ClassId.mk (by omega)
      rw [hlast, classAt_attaching_size hid] at hgiven
      cases hgiven
    rw [classAt_attaching_ne hlt heq] at hgiven
    obtain ⟨hbound, hpaired⟩ := h given companion hgiven
    refine ⟨by omega, ?_⟩
    by_cases hself : companion = id
    · subst hself
      rw [classAt_attaching_self hid]
      exact ⟨hpaired.kind, hpaired.attached, hpaired.superclass, hpaired.enclosing⟩
    · rw [classAt_attaching_ne hbound hself]
      exact hpaired

theorem Paired.companion (h : model.Paired) (hid : id.index < model.classes.size) :
    (model.companion id).2.Paired := by
  rcases hcompanion : (model.classAt id).companion with _ | other
  · rw [companion_of_none hcompanion]
    exact h.attaching hid
  · rw [companion_of_some hcompanion]
    exact h

theorem Paired.define (h : model.Paired) {name fullname : String} {record : ClassRecord}
    (hrecord : record.IsHeading fullname) : (model.define name record).2.Paired := by
  rcases hfind : model.catalogue.find? name with _ | id
  · rw [define_of_none hfind]
    exact h.of_push rfl hrecord.companion
  · rw [define_of_some hfind]
    exact h

theorem Paired.methodOwner (h : model.Paired) (side : MethodSide)
    (hid : id.index < model.classes.size) : (model.methodOwner side id).2.Paired := by
  cases side with
  | instanceSide => exact h
  | classSide => exact h.companion hid

/-- A request about classes of the model leaves every singleton class with its class. -/
theorem Paired.fulfil (h : model.Paired) (hmodel : model.Coherent) {request : Request} {deed : Deed}
    (hmeans : request.Means model deed) : (request.fulfil model).2.Paired := by
  cases hmeans with
  | nothing | find _ _ _ => exact h
  | define _ hrecord => exact h.define (hrecord _)
  | companion hpath => exact h.companion (hmodel.bound _ _ hpath)
  | mixIn kind hpath hsource =>
    exact h.modifyClass (fun _ => rfl) fun _ _ hplace =>
      ⟨hplace.kind, hplace.attached, hplace.superclass, hplace.enclosing⟩
  | method side name body hpath =>
    have howner := h.methodOwner side (hmodel.bound _ _ hpath)
    -- Only classes count, and the record of the method is none.
    have hadded (record : MethodRecord) :
        ((model.methodOwner side _).2.addMethod record).2.Paired := howner
    refine (hadded _).modifyClass (fun record => ?_) fun record base hplace => ?_
    · cases side <;> rfl
    · cases side <;> exact ⟨hplace.kind, hplace.attached, hplace.superclass, hplace.enclosing⟩

/-! ## Owners -/

/-- The class that the methods on one side of a class belong to, if it is there. -/
def ownerOf (model : Model) (side : MethodSide) (id : ClassId) : Option ClassId :=
  match side with
  | .instanceSide => some id
  | .classSide => (model.classAt id).companion

theorem Extends.ownerOf (h : model.Extends after) (howner : model.ownerOf side id = some owner) :
    after.ownerOf side id = some owner := by
  cases side with
  | instanceSide => exact howner
  | classSide => exact (h.records id (index_lt_of_companion howner)).companion owner howner

theorem ownerOf_methodOwner (side : MethodSide) (hid : id.index < model.classes.size) :
    (model.methodOwner side id).2.ownerOf side id = some (model.methodOwner side id).1 := by
  cases side with
  | instanceSide => rfl
  | classSide =>
    show ((model.companion id).2.classAt id).companion = some (model.companion id).1
    rcases hcompanion : (model.classAt id).companion with _ | other
    · rw [companion_of_none hcompanion, classAt_attaching_self hid]
    · rw [companion_of_some hcompanion, hcompanion]

theorem owner_methodFrom (model : Model) (name : String) (owner : ClassId) (body : Value) :
    (Declarations.methodFrom model name owner body).owner = some owner := by
  cases body with
  | methodRef method => exact MethodRecord.owner_aliased _ name _
  | nil | literal _ | classRef _ | sequence _ => rfl

/-- A class gives its methods their owner by the time that they are entered. -/
theorem ownerOf_fulfil_method {name : String} {body : Value} (h : model.Indexed)
    (hid : id.index < model.classes.size) :
    ((Request.method side id name body).fulfil model).2.ownerOf side id =
      some (model.methodOwner side id).1 := by
  have hindexed := (model.grows_methodOwner side id h).1
  have hgrows : (model.methodOwner side id).2.Grows
      ((Request.method side id name body).fulfil model).2 :=
    (Model.grows_addMethod _ _).trans (Model.grows_attachMethod _ side id _)
  exact (hgrows hindexed).2.ownerOf (ownerOf_methodOwner side hid)

/-- Methods, classes and singleton classes agree with each other. -/
structure Owned (model : Model) : Prop where
  coherent : model.Coherent
  tabled : model.Tabled
  paired : model.Paired
  /-- What is entered for a class belongs to the class or to its singleton class. -/
  owner : ∀ {id side name method}, model.Stores id side name method →
    ∃ owner, model.ownerOf side id = some owner ∧ (model.methodAt method).owner = some owner

theorem owned_empty : ({} : Model).Owned where
  coherent := coherent_empty
  tabled := tabled_empty
  paired := paired_empty
  owner hstores := absurd hstores not_stores_default

end Model

theorem Request.Means.isProper {model : Model} {request : Request} {deed : Deed}
    (h : request.Means model deed) : request.IsProper := by
  cases h with
  | define _ hrecord => exact hrecord
  | _ => trivial

/-- A request about classes of the model gives its method the right owner, and no other method
changes hands. -/
theorem Model.Owned.fulfil {model : Model} (h : model.Owned) {request : Request} {deed : Deed}
    (hmeans : request.Means model deed) : (request.fulfil model).2.Owned where
  coherent := (Request.gains_fulfil h.coherent hmeans).1.coherent
  tabled := h.tabled.fulfil hmeans.isProper
  paired := h.paired.fulfil h.coherent hmeans
  owner hstores := by
    have hextends := (Request.grows_fulfil hmeans.isProper model h.tabled.indexed).2
    rcases Request.stores_fulfil hmeans.isProper h.tabled.indexed hstores with
      hold | ⟨body, rfl, rfl⟩
    · -- An old method keeps its record, and its owner stays where it was.
      obtain ⟨owner, howner, hmethod⟩ := h.owner hold
      obtain ⟨-, hrecord⟩ := hextends.methods _ (h.tabled.stored hold).1
      exact ⟨owner, hextends.ownerOf howner, hrecord ▸ hmethod⟩
    · cases hmeans with
      | method side name body hpath =>
        refine ⟨_, ownerOf_fulfil_method h.tabled.indexed (h.coherent.bound _ _ hpath), ?_⟩
        rw [Request.methodAt_fulfil_method, owner_methodFrom]

/-! ## Runs -/

/-- A declaration about classes of the model can be told by paths. -/
theorem DeclarationKind.exists_means_of_request {kind : DeclarationKind} {args : Arguments}
    {request : Request} {model : Model} (hrequest : kind.request args = .ok request)
    (hmodel : model.Coherent) (hargs : ∀ index, (args.get index).InModel model) :
    ∃ deed, request.Means model deed := by
  have halike : Arguments.Alike model model args args := fun index => (hargs index).alike hmodel
  obtain ⟨_, deed, -, -, hmeans⟩ := kind.exists_request_of_alike halike hrequest
  exact ⟨deed, hmeans⟩

theorem Deed.inModel_of_answered {model after : Model} {deed : Deed} {value : Value}
    (hafter : after.Coherent) (h : deed.Answered model after value) : value.InModel after := by
  intro id hid
  cases deed with
  | nothing | mixIn _ _ _ =>
    cases h
    cases hid
  | define _ _ | companion _ =>
    obtain ⟨id', rfl, hlocate⟩ := h
    cases hid
    exact hafter.bound _ _ hlocate
  | method _ _ _ =>
    obtain ⟨method, rfl⟩ := h
    cases hid
  | find side path name =>
    replace h : if name ∈ model.methodNames path side then _ else _ := h
    split at h
    · obtain ⟨method, rfl⟩ := h
      cases hid
    · cases h
      cases hid

theorem Declarations.keeps_owned : Keeps Model.Owned Value.InModel where
  plain hplain id hid := by
    rw [hplain.1] at hid
    cases hid
  good hrequest howned hargs := by
    obtain ⟨deed, hmeans⟩ := DeclarationKind.exists_means_of_request hrequest howned.coherent hargs
    exact howned.fulfil hmeans
  answer hrequest howned hargs := by
    obtain ⟨deed, hmeans⟩ := DeclarationKind.exists_means_of_request hrequest howned.coherent hargs
    obtain ⟨hgains, hanswered⟩ := Request.gains_fulfil howned.coherent hmeans
    exact Deed.inModel_of_answered hgains.coherent hanswered
  mono hrequest howned _ _ hvalue id hid := by
    have hproper := DeclarationKind.isProper_of_request hrequest
    have hextends := (Request.grows_fulfil hproper _ howned.tabled.indexed).2
    exact Nat.lt_of_lt_of_le (hvalue id hid) hextends.size_le

namespace Model

theorem Reached.owned {model : Model} (h : model.Reached) : model.Owned := by
  induction h with
  | empty => exact owned_empty
  | index _ hvalues hscopes hends ih =>
    have hupholds : Machine.Upholds (fun host => Owned host.state) Value.InModel _ :=
      ⟨ih, hvalues, hscopes⟩
    exact (Declarations.keeps_owned.preserves.index hupholds hends).upholds.good

/-! ## Towers -/

/-- The class is registered, or it is in the tower of one that is. -/
def InTowers (model : Model) (id : ClassId) : Prop :=
  id ∈ model.catalogue.order ∨
    ∃ base ∈ model.catalogue.order, ∃ levels, id ∈ model.tower levels base

section Towers

variable {model : Model} {id base : ClassId}

/-- The tower of a class goes up from its path. -/
theorem locate_of_mem_tower {path : ClassPath} {levels : Nat}
    (hpath : model.locate path = some base) (hid : id ∈ model.tower levels base) :
    ∃ higher, model.locate higher = some id ∧ path.level < higher.level := by
  induction levels generalizing base path with
  | zero => cases hid
  | succ levels ih =>
    rw [tower] at hid
    rcases hcompanion : (model.classAt base).companion with _ | companion
    · rw [hcompanion] at hid
      cases hid
    · rw [hcompanion] at hid
      have hsingleton : model.locate path.singleton = some companion := by
        rw [locate_singleton, hpath, Option.bind_some, hcompanion]
      rcases List.mem_cons.1 hid with rfl | hrest
      · exact ⟨path.singleton, hsingleton, Nat.lt_succ_self _⟩
      · obtain ⟨higher, hhigher, hlevel⟩ := ih hsingleton hrest
        exact ⟨higher, hhigher, Nat.lt_of_succ_lt hlevel⟩

theorem Coherent.locate_of_inTowers (h : model.Coherent) (hid : model.InTowers id) :
    ∃ path, model.locate path = some id := by
  rcases hid with horder | ⟨base, horder, levels, htower⟩
  · obtain ⟨name, hname⟩ := (h.order id).1 horder
    exact ⟨.named name, hname⟩
  · obtain ⟨name, hname⟩ := (h.order base).1 horder
    obtain ⟨path, hpath, -⟩ := locate_of_mem_tower hname htower
    exact ⟨path, hpath⟩

/-- No class is in its own tower. -/
theorem Coherent.not_mem_tower (h : model.Coherent) (levels : Nat) :
    id ∉ model.tower levels id := by
  intro hid
  have hbound : id.index < model.classes.size := by
    by_contra hge
    cases levels with
    | zero => cases hid
    | succ levels =>
      rw [tower, classAt_of_size_le (by omega)] at hid
      cases hid
  obtain ⟨path, hpath⟩ := h.covers id hbound
  obtain ⟨higher, hhigher, hlevel⟩ := locate_of_mem_tower hpath hid
  rw [h.injective _ _ _ hhigher hpath] at hlevel
  exact Nat.lt_irrefl _ hlevel

end Towers

/-- A class agrees with its methods and with its singleton class. -/
structure Orderly (model : Model) (id : ClassId) : Prop where
  instanceMethods : ∀ name method, model.findMethod? .instanceSide id name = some method →
    (model.methodAt method).name = name ∧ (model.methodAt method).owner = some id
  classMethods : ∀ name method, model.findMethod? .classSide id name = some method →
    (model.methodAt method).name = name ∧
      ∃ companion, (model.classAt id).companion = some companion ∧
        (model.methodAt method).owner = some companion
  /-- Every method of the table is found under its own name. -/
  listed : ∀ side method, method ∈ ((model.classAt id).methods side).methods →
    model.findMethod? side id (model.methodAt method).name = some method
  companion : ∀ companion, (model.classAt id).companion = some companion →
    (model.classAt companion).kind = .singleton ∧ (model.classAt companion).attached = some id ∧
      model.fullname companion = "#<Class:" ++ model.fullname id ++ ">" ∧
      (model.classAt companion).superclass = none ∧ (model.classAt companion).enclosing = none

section Sweep

variable {model : Model} {roots : List Entity} {id : ClassId}

theorem findMethod?_sweep (side : MethodSide) (id : ClassId) (name : String) :
    (model.sweep roots).findMethod? side id name = model.findMethod? side id name := by
  unfold findMethod?
  rw [classAt_sweep]
  cases side <;> rfl

theorem fullname_sweep (id : ClassId) : (model.sweep roots).fullname id = model.fullname id := by
  unfold fullname
  rw [classAt_sweep]

theorem filter_isLive {given : Option ClassId} (hgiven : given = some id)
    (hlive : model.isLive roots id = true) : given.filter (model.isLive roots) = some id := by
  rw [hgiven, Option.filter_some, if_pos hlive]

/-- What is entered for a live class has the right name and the right owner, also when links that
are lost are taken away. -/
theorem Owned.name_owner_sweep (h : model.Owned) (hroots : model.registered ⊆ roots)
    {path : ClassPath} (hpath : model.locate path = some id) {side : MethodSide} {name : String}
    {method : MethodId} (hfind : model.findMethod? side id name = some method) :
    ((model.sweep roots).methodAt method).name = name ∧
      ∃ owner, model.ownerOf side id = some owner ∧
        ((model.sweep roots).methodAt method).owner = some owner := by
  have hstores := h.tabled.indexed.findMethod?_eq_some_iff.1 hfind
  obtain ⟨owner, hownerOf, howner⟩ := h.owner hstores
  -- The owner stands at the path of the class or one level above it, so it is live.
  have hplace : model.locate (path.methodOwner side) = some owner := by
    cases side with
    | instanceSide =>
      cases hownerOf
      exact hpath
    | classSide =>
      show model.locate path.singleton = some owner
      rw [locate_singleton, hpath]
      exact hownerOf
  rw [methodAt_sweep]
  exact ⟨(h.tabled.stored hstores).2, owner, hownerOf,
    filter_isLive howner (h.coherent.isLive hroots hplace)⟩

theorem Owned.orderly_sweep (h : model.Owned) (hroots : model.registered ⊆ roots)
    {path : ClassPath} (hpath : model.locate path = some id) : (model.sweep roots).Orderly id where
  instanceMethods name method hfind := by
    rw [findMethod?_sweep] at hfind
    obtain ⟨hname, owner, hownerOf, howner⟩ := h.name_owner_sweep hroots hpath hfind
    cases hownerOf
    exact ⟨hname, howner⟩
  classMethods name method hfind := by
    rw [findMethod?_sweep] at hfind
    obtain ⟨hname, owner, hownerOf, howner⟩ := h.name_owner_sweep hroots hpath hfind
    refine ⟨hname, owner, ?_, howner⟩
    rw [classAt_sweep]
    exact hownerOf
  listed side method hmethod := by
    rw [classAt_sweep] at hmethod
    rw [findMethod?_sweep, methodAt_sweep, h.tabled.indexed.findMethod?_eq_some_iff]
    have hentry : method ∈ ((model.classAt id).methods side).methods := by
      cases side <;> exact hmethod
    obtain ⟨⟨name, method⟩, hstores, rfl⟩ := List.mem_map.1 hentry
    have hname := (h.tabled.stored hstores).2
    dsimp only at hname ⊢
    rw [hname]
    exact hstores
  companion companion hcompanion := by
    rw [classAt_sweep] at hcompanion
    obtain ⟨-, hpaired⟩ := h.paired id companion hcompanion
    have hsingleton : model.locate path.singleton = some companion := by
      rw [locate_singleton, hpath]
      exact hcompanion
    rw [fullname_sweep, fullname_sweep, h.coherent.fullname _ _ hsingleton,
      h.coherent.fullname _ _ hpath, classAt_sweep]
    exact ⟨hpaired.kind, filter_isLive hpaired.attached (h.coherent.isLive hroots hpath), rfl,
      hpaired.superclass, hpaired.enclosing⟩

end Sweep

end Model

namespace Indexing

/-- In every model that indexing can lead to, the classes in the towers of registered classes agree
with their methods and with their singleton classes, also when owners and attached classes that
nothing keeps alive are lost.  A singleton class belongs to one class only, and no class is in its
own tower. -/
theorem orderly_of_reached {model : Model} {roots : List Entity} (h : model.Reached)
    (hroots : model.registered ⊆ roots) :
    (∀ id, model.InTowers id → (model.sweep roots).Orderly id) ∧
      (∀ id other companion, (model.classAt id).companion = some companion →
        (model.classAt other).companion = some companion → id = other) ∧
      ∀ id levels, id ∉ model.tower levels id := by
  have howned := h.owned
  refine ⟨fun id hid => ?_, fun id other companion hid hother => howned.paired.injective hid hother,
    fun id levels => howned.coherent.not_mem_tower levels⟩
  obtain ⟨path, hpath⟩ := howned.coherent.locate_of_inTowers hid
  exact howned.orderly_sweep hroots hpath

/-- Defines a method in the body of a singleton class and gives it a second name one level up. -/
def towering : Sequence :=
  let inner := (Sequence.start "singleton class" .classBody)
    |>.putSymbol "make" |>.putBody Demo.create |>.call "core#define_method" 2 |>.pop
    |>.putSelf |>.putSymbol "build"
    |>.putSelf |>.putSymbol "make" |>.call "instance_method" 1
    |>.call "define_singleton_method" 2 |>.leave
  let tool := (Sequence.start "<class:Tool>" .classBody).putSelf.putNil
    |>.defineClass "singleton" inner .singletonBody
  (Demo.appendClass (.start "<main>" .top) "Tool" none tool .empty).leave

/-- With one class registered, the singleton class above it has a method of its own and one of its
singleton class. -/
theorem orderly_of_reached_towering :
    ∃ result after, (index 5 towering).Ends (start .nil { state := {} }) result after ∧
      after.host.state.catalogue.order = [⟨0⟩] ∧
      after.host.state.tower 3 ⟨0⟩ = [⟨1⟩, ⟨2⟩] ∧
      (after.host.state.classAt ⟨1⟩).instanceMethods.methods = [⟨0⟩] ∧
      (after.host.state.classAt ⟨1⟩).classMethods.methods = [⟨1⟩] ∧
      (after.host.state.sweep after.host.state.registered).Orderly ⟨1⟩ ∧
      ⟨1⟩ ∉ after.host.state.tower 3 ⟨1⟩ := by
  have hcheck : ((index 5 towering).run.run (start .nil { state := {} })).any (fun ending =>
      ending.2.host.state.catalogue.order == [⟨0⟩] &&
        ending.2.host.state.tower 3 ⟨0⟩ == [⟨1⟩, ⟨2⟩] &&
        (ending.2.host.state.classAt ⟨1⟩).instanceMethods.methods == [⟨0⟩] &&
        (ending.2.host.state.classAt ⟨1⟩).classMethods.methods == [⟨1⟩]) = true := by
    decide +kernel
  obtain ⟨result, after, hends, hrest⟩ := RunM.exists_ends_of_any hcheck
  simp only [Bool.and_eq_true, beq_iff_eq] at hrest
  obtain ⟨⟨⟨horder, htower⟩, hinstance⟩, hclass⟩ := hrest
  have hnil : Value.nil.InModel {} := nofun
  have hreached : after.host.state.Reached :=
    .index .empty (fun _ hvalue => absurd hvalue List.not_mem_nil)
      (forall_mem_scopes_start hnil { state := {} }) hends
  have hid : after.host.state.InTowers ⟨1⟩ := by
    refine Or.inr ⟨⟨0⟩, ?_, 3, ?_⟩
    · rw [horder]
      exact List.mem_singleton_self _
    · rw [htower]
      exact List.mem_cons_self
  obtain ⟨horderly, -, hacyclic⟩ := orderly_of_reached hreached (List.Subset.refl _)
  exact ⟨result, after, hends, horder, htower, hinstance, hclass, horderly ⟨1⟩ hid, hacyclic ⟨1⟩ 3⟩

end Indexing

end ClassIndex
