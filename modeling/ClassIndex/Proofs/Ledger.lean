import ClassIndex.Proofs.Coherence
import Mathlib.Algebra.Group.Pi.Basic
import Mathlib.Algebra.Order.Group.Multiset
import Mathlib.Data.Set.Insert

/-!
# What requests add

Told by paths, a request is a `Deed`, and what a deed adds to a coherent model does not depend on
the model: certain facts (`Deed.facts`), some of which may be known already, and certain mixins
(`Deed.mixins`), which are added each time.  `Request.gains_fulfil` says so, and what the answer is.
Of all answers only that of a lookup depends on what the model says.
-/

namespace ClassIndex

/-- Something that can be said once about the classes of a model. -/
inductive Fact where
  /-- There is a class at the path. -/
  | known (path : ClassPath)
  /-- A class has a method of that name. -/
  | method (path : ClassPath) (side : MethodSide) (name : String)

namespace Model

/-- What a model says. -/
def Declares (model : Model) : Fact → Prop
  | .known path => (model.locate path).isSome
  | .method path side name => name ∈ model.methodNames path side

theorem declares_known {model : Model} {path : ClassPath} {id : ClassId}
    (h : model.locate path = some id) : model.Declares (.known path) := by
  show (model.locate path).isSome
  rw [h]
  rfl

theorem not_declares_empty (fact : Fact) : ¬ ({} : Model).Declares fact := by
  cases fact with
  | known path => simp [Declares, locate_empty]
  | method path side name => simp [Declares, methodNames_of_none (locate_empty path)]

/-- What a model says is said by every model that it grows to. -/
theorem Extends.declares {model after : Model} (h : model.Extends after) {fact : Fact}
    (hfact : model.Declares fact) : after.Declares fact := by
  cases fact with
  | known path =>
    obtain ⟨id, hid⟩ := Option.isSome_iff_exists.1 hfact
    exact declares_known (h.locate path id hid)
  | method path side name =>
    replace hfact : name ∈ model.methodNames path side := hfact
    show name ∈ after.methodNames path side
    rcases hpath : model.locate path with _ | id
    · rw [methodNames_of_none hpath] at hfact
      cases hfact
    · rw [methodNames_of_locate hpath] at hfact
      rw [methodNames_of_locate (h.locate path id hpath)]
      have hbound : id.index < model.classes.size := by
        by_contra hbound
        rw [classAt_of_size_le (by omega)] at hfact
        cases side <;> cases hfact
      exact ((h.records id hbound).names side).subset hfact

/-- The second model is the first one with these facts and mixins added. -/
structure Gains (model after : Model) (facts : Set Fact)
    (mixins : ClassPath → Multiset (MixinKind × String)) : Prop where
  coherent : after.Coherent
  locate : model.locate.Extends after.locate
  declares : ∀ fact, after.Declares fact ↔ model.Declares fact ∨ fact ∈ facts
  mixins : ∀ path, (after.mixinsAt path : Multiset (MixinKind × String)) =
    model.mixinsAt path + mixins path

namespace Gains

variable {model between after : Model} {facts facts' : Set Fact}
  {mixins mixins' : ClassPath → Multiset (MixinKind × String)}

theorem refl (h : model.Coherent) : model.Gains model ∅ 0 where
  coherent := h
  locate := .refl _
  declares fact := by simp
  mixins path := by simp

theorem trans (h₁ : model.Gains between facts mixins) (h₂ : between.Gains after facts' mixins') :
    model.Gains after (facts ∪ facts') (mixins + mixins') where
  coherent := h₂.coherent
  locate := h₁.locate.trans h₂.locate
  declares fact := by
    rw [h₂.declares, h₁.declares, Set.mem_union]
    exact or_assoc
  mixins path := by
    rw [h₂.mixins, h₁.mixins, Pi.add_apply, add_assoc]

end Gains

/-! ## Operations -/

section Operations

variable {model after : Model} {path : ClassPath} {id : ClassId}

theorem Enrols.gains (h : model.Enrols after path) (hmodel : model.Coherent) :
    model.Gains after {.known path} 0 where
  coherent := h.coherent hmodel
  locate := h.extends_locate
  declares fact := by
    cases fact with
    | known other =>
      by_cases heq : other = path
      · subst heq
        simp [Declares, h.locate_self]
      · simp [Declares, h.locate_of_ne heq, heq]
    | method other side name => simp [Declares, h.methodNames_eq hmodel]
  mixins other := by
    rw [h.mixinsAt_eq hmodel]
    simp

theorem gains_of_known (hmodel : model.Coherent) (h : model.locate path = some id) :
    model.Gains model {.known path} 0 where
  coherent := hmodel
  locate := .refl _
  declares fact := by
    constructor
    · exact Or.inl
    · rintro (hfact | rfl)
      · exact hfact
      · exact declares_known h
  mixins other := by simp

/-- The class of a name is there afterwards, and nothing else has changed. -/
theorem Coherent.gains_define (h : model.Coherent) {name : String} {record : ClassRecord}
    (hrecord : record.IsHeading name) :
    model.Gains (model.define name record).2 {.known (.named name)} 0 ∧
      (model.define name record).2.locate (.named name) = some (model.define name record).1 := by
  rcases hfind : model.catalogue.find? name with _ | id
  · have henrols := h.enrols_registering hfind hrecord
    rw [define_of_none hfind]
    exact ⟨henrols.gains h, henrols.locate_self⟩
  · rw [define_of_some hfind]
    exact ⟨gains_of_known h hfind, hfind⟩

/-- The singleton class is there afterwards, and nothing else has changed. -/
theorem Coherent.gains_companion (h : model.Coherent) (hpath : model.locate path = some id) :
    model.Gains (model.companion id).2 {.known path.singleton} 0 ∧
      (model.companion id).2.locate path.singleton = some (model.companion id).1 := by
  rcases hcompanion : (model.classAt id).companion with _ | other
  · have henrols := h.enrols_attaching hpath hcompanion
    rw [companion_of_none hcompanion]
    exact ⟨henrols.gains h, henrols.locate_self⟩
  · have hlocate : model.locate path.singleton = some other := by
      rw [locate_singleton, hpath, Option.bind_some, hcompanion]
    rw [companion_of_some hcompanion]
    exact ⟨gains_of_known h hlocate, hlocate⟩

theorem locate_addMethod (model : Model) (record : MethodRecord) :
    (model.addMethod record).2.locate = model.locate :=
  locate_unique (fun _ => rfl) fun _ => rfl

theorem Coherent.gains_addMethod (h : model.Coherent) (record : MethodRecord) :
    model.Gains (model.addMethod record).2 ∅ 0 := by
  have hlocate := model.locate_addMethod record
  have hnames : (model.addMethod record).2.methodNames = model.methodNames := by
    funext other side
    unfold methodNames
    rw [hlocate]
    rfl
  have hmixins : (model.addMethod record).2.mixinsAt = model.mixinsAt := by
    funext other
    unfold mixinsAt
    rw [hlocate]
    rfl
  refine ⟨⟨h.indexed, ?_, ?_, ?_, ?_, h.nodup, ?_, h.sources⟩, ?_, ?_, ?_⟩
  · rw [hlocate]
    exact h.bound
  · rw [hlocate]
    exact h.injective
  · rw [hlocate]
    exact h.covers
  · rw [hlocate]
    exact h.fullname
  · rw [hlocate]
    exact h.order
  · rw [hlocate]
    exact .refl _
  · intro fact
    cases fact <;> simp [Declares, hlocate, hnames]
  · intro other
    simp [hmixins]

/-- A method that is entered adds its name to one table. -/
theorem Coherent.gains_attachMethod (h : model.Coherent) (hpath : model.locate path = some id)
    (side : MethodSide) (method : MethodId) :
    model.Gains (model.attachMethod side id method)
      {.method path side (model.methodAt method).name} 0 := by
  have hcompanion : ((model.classAt id).insertMethod side (model.methodAt method).name
      method).companion = (model.classAt id).companion := by
    cases side <;> rfl
  have hfullname : ((model.classAt id).insertMethod side (model.methodAt method).name
      method).fullname = (model.classAt id).fullname := by
    cases side <;> rfl
  have hmixins : ((model.classAt id).insertMethod side (model.methodAt method).name
      method).mixins = (model.classAt id).mixins := by
    cases side <;> rfl
  have hlocate : (model.attachMethod side id method).locate = model.locate :=
    locate_modifyClass hcompanion
  refine ⟨h.modifyClass hfullname hcompanion ((h.indexed id).insertMethod _ _ _) ?_, ?_, ?_, ?_⟩
  · rw [hmixins]
    exact h.sources id
  · rw [hlocate]
    exact .refl _
  · intro fact
    cases fact with
    | known other => simp [Declares, hlocate]
    | method other side' name =>
      simp only [Declares, attachMethod, h.methodNames_modifyClass hpath hcompanion]
      by_cases heq : other = path
      · subst heq
        rw [if_pos rfl, methodNames_of_locate hpath]
        by_cases hside : side' = side
        · subst hside
          rw [ClassRecord.methods_insertMethod_self, (h.indexed id side').names_insert]
          split <;> simp_all
        · rw [ClassRecord.methods_insertMethod_ne hside]
          simp [hside]
      · rw [if_neg heq]
        simp [heq]
  · intro other
    rw [attachMethod, h.mixinsAt_modifyClass hpath hfullname hcompanion, hmixins,
      ← mixinsAt_of_locate hpath]
    split
    · rename_i heq
      simp [heq]
    · simp

theorem Coherent.gains_mixIn (h : model.Coherent) {source : ClassPath} {sourceId : ClassId}
    (hpath : model.locate path = some id) (hsource : model.locate source = some sourceId)
    (kind : MixinKind) :
    model.Gains (model.mixIn kind id sourceId) ∅
      (fun other => if other = path then {(kind, source.fullname)} else 0) := by
  have hlocate : (model.mixIn kind id sourceId).locate = model.locate := locate_modifyClass rfl
  refine ⟨h.modifyClass rfl rfl ?_ ?_, ?_, ?_, ?_⟩
  · intro side
    have hindexed := h.indexed id side
    cases side <;> exact hindexed
  · intro mixin hmixin
    rcases List.mem_append.1 hmixin with hold | hnew
    · exact h.sources id mixin hold
    · rw [List.mem_singleton.1 hnew]
      exact h.bound source sourceId hsource
  · rw [hlocate]
    exact .refl _
  · intro fact
    cases fact with
    | known other => simp [Declares, hlocate]
    | method other side name =>
      simp only [Declares, Set.mem_empty_iff_false, or_false]
      rw [mixIn, h.methodNames_modifyClass hpath rfl]
      split
      · rename_i heq
        rw [heq, methodNames_of_locate hpath]
        cases side <;> rfl
      · rfl
  · intro other
    rw [mixIn, h.mixinsAt_modifyClass hpath rfl rfl]
    split
    · rename_i heq
      rw [heq, mixinsAt_of_locate hpath]
      simp only [List.map_append, List.map_cons, List.map_nil,
        h.fullname source sourceId hsource]
      exact (Multiset.coe_add _ _).symm
    · simp

end Operations

end Model

/-! ## Deeds -/

/-- A request, told by paths. -/
inductive Deed where
  | nothing
  | define (scope : Option ClassPath) (name : String)
  | companion (path : ClassPath)
  | method (side : MethodSide) (path : ClassPath) (name : String)
  | find (side : MethodSide) (path : ClassPath) (name : String)
  | mixIn (kind : MixinKind) (path source : ClassPath)

namespace Deed

/-- The facts that a deed makes known. -/
def facts : Deed → Set Fact
  | define scope name => {.known (.named (ClassPath.qualify scope name))}
  | companion path => {.known path.singleton}
  | method .instanceSide path name => {.method path .instanceSide name}
  | method .classSide path name => {.known path.singleton, .method path .classSide name}
  | nothing | find _ _ _ | mixIn _ _ _ => ∅

/-- The mixins that a deed adds. -/
def mixins : Deed → ClassPath → Multiset (MixinKind × String)
  | mixIn kind path source => fun other => if other = path then {(kind, source.fullname)} else 0
  | _ => 0

/-- What a deed is answered with, on a model that says what `model` says and then what `after`
says. -/
def Answered (model after : Model) : Deed → Value → Prop
  | nothing, value | mixIn _ _ _, value => value = .nil
  | define scope name, value => ∃ id, value = .classRef id ∧
      after.locate (.named (ClassPath.qualify scope name)) = some id
  | companion path, value => ∃ id, value = .classRef id ∧ after.locate path.singleton = some id
  | method _ _ _, value => ∃ method, value = .methodRef method
  | find side path name, value =>
    if name ∈ model.methodNames path side then ∃ method, value = .methodRef method
    else value = .nil

end Deed

namespace Request

/-- The classes of a request stand at the paths of a deed. -/
inductive Means (model : Model) : Request → Deed → Prop
  | nothing : Means model .nothing .nothing
  | define {enclosing : Option ClassId} {scope : Option ClassPath} {name : String}
      {record : String → ClassRecord} (hscope : model.locate.Agree scope enclosing)
      (hrecord : ∀ fullname, (record fullname).IsHeading fullname) :
      Means model (.define enclosing name record) (.define scope name)
  | companion {id : ClassId} {path : ClassPath} (hpath : model.locate path = some id) :
      Means model (.companion id) (.companion path)
  | method {id : ClassId} {path : ClassPath} (side : MethodSide) (name : String) (body : Value)
      (hpath : model.locate path = some id) :
      Means model (.method side id name body) (.method side path name)
  | find {id : ClassId} {path : ClassPath} (side : MethodSide) (name : String)
      (hpath : model.locate path = some id) :
      Means model (.find side id name) (.find side path name)
  | mixIn {id sourceId : ClassId} {path source : ClassPath} (kind : MixinKind)
      (hpath : model.locate path = some id) (hsource : model.locate source = some sourceId) :
      Means model (.mixIn kind id sourceId) (.mixIn kind path source)

theorem name_methodFrom (model : Model) (name : String) (owner : ClassId) (body : Value) :
    (Declarations.methodFrom model name owner body).name = name := by
  cases body with
  | methodRef method => exact MethodRecord.name_aliased _ name _
  | nil | literal _ | classRef _ | sequence _ => rfl

theorem gains_method {model : Model} {id : ClassId} {path : ClassPath} (h : model.Coherent)
    (hpath : model.locate path = some id) (side : MethodSide) (name : String) (body : Value) :
    model.Gains ((Request.method side id name body).fulfil model).2
      (Deed.method side path name).facts 0 := by
  have hattach (between : Model) (record : MethodRecord) (hname : record.name = name)
      (hbetween : between.Coherent) (hid : between.locate path = some id) :
      between.Gains ((between.addMethod record).2.attachMethod side id (between.addMethod record).1)
        {.method path side name} 0 := by
    have hadded := hbetween.gains_addMethod record
    have hattached := hadded.coherent.gains_attachMethod (hadded.locate _ _ hid) side
      (between.addMethod record).1
    rw [Model.methodAt_addMethod, hname] at hattached
    have hboth := hadded.trans hattached
    rwa [Set.empty_union, add_zero] at hboth
  cases side with
  | instanceSide => exact hattach model _ (name_methodFrom model name id body) h hpath
  | classSide =>
    obtain ⟨hcompanion, -⟩ := h.gains_companion hpath
    have hattached := hattach _ _
      (name_methodFrom (model.companion id).2 name (model.companion id).1 body)
      hcompanion.coherent (hcompanion.locate _ _ hpath)
    have hboth := hcompanion.trans hattached
    rw [Set.singleton_union, add_zero] at hboth
    exact hboth

/-- A request adds what its deed says, and is answered accordingly. -/
theorem gains_fulfil {model : Model} {request : Request} {deed : Deed} (h : model.Coherent)
    (hmeans : request.Means model deed) :
    model.Gains (request.fulfil model).2 deed.facts deed.mixins ∧
      deed.Answered model (request.fulfil model).2 (request.fulfil model).1 := by
  cases hmeans with
  | nothing => exact ⟨.refl h, rfl⟩
  | @define enclosing scope name record hscope hrecord =>
    show model.Gains (model.define _ _).2 _ _ ∧ ∃ id, _ ∧ (model.define _ _).2.locate _ = _
    rw [h.qualify_eq hscope]
    obtain ⟨hgains, hlocate⟩ := h.gains_define (hrecord (ClassPath.qualify scope name))
    exact ⟨hgains, _, by rw [fulfil, Model.defineIn, h.qualify_eq hscope], hlocate⟩
  | companion hpath =>
    obtain ⟨hgains, hlocate⟩ := h.gains_companion hpath
    exact ⟨hgains, _, rfl, hlocate⟩
  | method side name body hpath => exact ⟨gains_method h hpath side name body, _, rfl⟩
  | @find id path side name hpath =>
    refine ⟨.refl h, ?_⟩
    have hfound : (model.findMethod? side id name).isSome ↔ name ∈ model.methodNames path side := by
      rw [Model.methodNames_of_locate hpath]
      exact (h.indexed id side).isSome_get?_iff name
    show if _ then _ else _
    rw [fulfil]
    rcases hmethod : model.findMethod? side id name with _ | method
    · rw [if_neg (by simpa [hmethod] using hfound)]
      rfl
    · rw [if_pos (by simpa [hmethod] using hfound)]
      exact ⟨method, rfl⟩
  | mixIn kind hpath hsource => exact ⟨h.gains_mixIn hpath hsource kind, rfl⟩

end Request

end ClassIndex
