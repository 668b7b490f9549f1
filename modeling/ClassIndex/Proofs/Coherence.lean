import ClassIndex.Proofs.Growth

/-!
# Coherent models

In a coherent model every class stands at one path: it is the class that the catalogue finds under a
name, or the singleton class some levels above one, and its own name is that of its path.  What a
model says can then be told by paths: which of them have a class (`Model.locate`), the names of the
methods there (`methodNames`) and the mixins (`mixinsAt`).  Each operation of the model keeps it
coherent and changes one of the three at one place (`Enrols`, `methodNames_modifyClass`,
`mixinsAt_modifyClass`).
-/

namespace ClassIndex

open Represents (grow grow_self grow_of_ne extends_grow eq_or_of_grow)

/-- A property of paths holds if it holds of the classes with a name and goes up the towers. -/
@[elab_as_elim]
theorem ClassPath.tower_induction {motive : ClassPath → Prop} (path : ClassPath)
    (named : ∀ name, motive (.named name))
    (singleton : ∀ path, motive path → motive path.singleton) : motive path := by
  rcases path with ⟨name, level⟩
  induction level with
  | zero => exact named name
  | succ level ih => exact singleton ⟨name, level⟩ ih

/-- The two records say the same, except for their place in the hierarchy. -/
structure ClassRecord.SameContents (record after : ClassRecord) : Prop where
  fullname : after.fullname = record.fullname
  mixins : after.mixins = record.mixins
  methods : ∀ side, after.methods side = record.methods side

theorem ClassRecord.SameContents.refl (record : ClassRecord) : record.SameContents record :=
  ⟨rfl, rfl, fun _ => rfl⟩

namespace Model

/-! ## Classes by path -/

theorem locate_named (model : Model) (name : String) :
    model.locate (.named name) = model.catalogue.find? name := rfl

theorem locate_singleton (model : Model) (path : ClassPath) :
    model.locate path.singleton =
      (model.locate path).bind fun id => (model.classAt id).companion := rfl

theorem locate_singleton_of_eq_none {model : Model} {path : ClassPath}
    (h : model.locate path = none) : model.locate path.singleton = none := by
  rw [locate_singleton, h, Option.bind_none]

/-- The classes by path are those that start from the catalogue and go up by companions. -/
theorem locate_unique {model : Model} {ids : Identities}
    (hnamed : ∀ name, ids (.named name) = model.catalogue.find? name)
    (hsingleton : ∀ path, ids path.singleton =
      (ids path).bind fun id => (model.classAt id).companion) : model.locate = ids := by
  funext path
  induction path using ClassPath.tower_induction with
  | named name => rw [hnamed, locate_named]
  | singleton path ih => rw [hsingleton, locate_singleton, ih]

theorem index_lt_of_companion {model : Model} {id companion : ClassId}
    (h : (model.classAt id).companion = some companion) : id.index < model.classes.size := by
  by_contra hbound
  rw [classAt_of_size_le (by omega)] at h
  cases h

/-- A class keeps its path when the model grows. -/
theorem Extends.locate {model after : Model} (h : model.Extends after) :
    model.locate.Extends after.locate := by
  intro path
  induction path using ClassPath.tower_induction with
  | named name => exact fun id hid => h.find name id hid
  | singleton path ih =>
    intro id hid
    rw [locate_singleton] at hid ⊢
    obtain ⟨base, hbase, hcompanion⟩ := Option.bind_eq_some_iff.1 hid
    have hbound := index_lt_of_companion hcompanion
    rw [ih base hbase, Option.bind_some]
    exact (h.records base hbound).companion id hcompanion

/-- The names of the methods on one side of a class, in order of definition. -/
def methodNames (model : Model) (path : ClassPath) (side : MethodSide) : List String :=
  match model.locate path with
  | some id => ((model.classAt id).methods side).names
  | none => []

/-- The mixins of a class with the names of the modules, in order of declaration. -/
def mixinsAt (model : Model) (path : ClassPath) : List (MixinKind × String) :=
  match model.locate path with
  | some id => (model.classAt id).mixins.map fun mixin => (mixin.kind, model.fullname mixin.source)
  | none => []

section Views

variable {model : Model} {path : ClassPath} {id : ClassId}

theorem methodNames_of_locate (h : model.locate path = some id) (side : MethodSide) :
    model.methodNames path side = ((model.classAt id).methods side).names := by
  simp only [methodNames, h]

theorem methodNames_of_none (h : model.locate path = none) (side : MethodSide) :
    model.methodNames path side = [] := by
  simp only [methodNames, h]

theorem mixinsAt_of_locate (h : model.locate path = some id) :
    model.mixinsAt path =
      (model.classAt id).mixins.map fun mixin => (mixin.kind, model.fullname mixin.source) := by
  simp only [mixinsAt, h]

theorem mixinsAt_of_none (h : model.locate path = none) : model.mixinsAt path = [] := by
  simp only [mixinsAt, h]

end Views

/-! ## Coherence -/

/-- Every class stands at one path and is named by it, and the catalogue lists those with a path of
level zero. -/
structure Coherent (model : Model) : Prop where
  indexed : model.Indexed
  bound : ∀ path id, model.locate path = some id → id.index < model.classes.size
  injective : ∀ path other id, model.locate path = some id → model.locate other = some id →
    path = other
  covers : ∀ id : ClassId, id.index < model.classes.size → ∃ path, model.locate path = some id
  fullname : ∀ path id, model.locate path = some id → model.fullname id = path.fullname
  nodup : model.catalogue.order.Nodup
  order : ∀ id, id ∈ model.catalogue.order ↔ ∃ name, model.locate (.named name) = some id
  /-- Mixins are classes of the model. -/
  sources : ∀ id mixin, mixin ∈ (model.classAt id).mixins →
    mixin.source.index < model.classes.size

theorem classAt_empty (id : ClassId) : ({} : Model).classAt id = default := rfl

theorem locate_empty (path : ClassPath) : ({} : Model).locate path = none := by
  induction path using ClassPath.tower_induction with
  | named name => exact Std.TreeMap.getElem?_emptyc
  | singleton path ih => exact locate_singleton_of_eq_none ih

theorem coherent_empty : ({} : Model).Coherent where
  indexed _ := indexed_default
  bound path id h := by simp [locate_empty] at h
  injective path other id h := by simp [locate_empty] at h
  covers id h := absurd h (Nat.not_lt_zero _)
  fullname path id h := by simp [locate_empty] at h
  nodup := List.nodup_nil
  order id := by
    simp only [locate_empty, reduceCtorEq, exists_false, iff_false]
    exact List.not_mem_nil
  sources id mixin h := by
    rw [classAt_empty] at h
    cases h

namespace Coherent

variable {model after : Model} {path : ClassPath} {id : ClassId}

/-- Different paths have different classes. -/
theorem id_ne (h : model.Coherent) {other : ClassPath} {given : ClassId}
    (hother : model.locate other = some given) (hpath : model.locate path = some id)
    (hne : other ≠ path) : given ≠ id := by
  rintro rfl
  exact hne (h.injective _ _ _ hother hpath)

theorem qualify_eq (h : model.Coherent) {enclosing : Option ClassId} {scope : Option ClassPath}
    (hscope : model.locate.Agree scope enclosing) (name : String) :
    model.qualify enclosing name = ClassPath.qualify scope name := by
  cases hscope with
  | none => rfl
  | some hlocate =>
    show model.fullname _ ++ "::" ++ name = _
    rw [h.fullname _ _ hlocate]
    rfl

end Coherent

/-! ## A class more -/

/-- One more class, at a path that had none.  It says nothing but its name, and the others say what
they said. -/
structure Enrols (model after : Model) (path : ClassPath) : Prop where
  fresh : model.locate path = none
  locate : after.locate = grow model.locate path ⟨model.classes.size⟩
  size : after.classes.size = model.classes.size + 1
  indexed : after.Indexed
  old : ∀ id : ClassId, id.index < model.classes.size →
    (model.classAt id).SameContents (after.classAt id)
  new : (ClassRecord.placeholder path.fullname).SameContents (after.classAt ⟨model.classes.size⟩)
  nodup : after.catalogue.order.Nodup
  order : ∀ id, id ∈ after.catalogue.order ↔ ∃ name, after.locate (.named name) = some id

namespace Enrols

variable {model after : Model} {path other : ClassPath} {id : ClassId}

theorem locate_self (h : model.Enrols after path) :
    after.locate path = some ⟨model.classes.size⟩ := by
  rw [h.locate, grow_self]

theorem locate_of_ne (h : model.Enrols after path) (hne : other ≠ path) :
    after.locate other = model.locate other := by
  rw [h.locate, grow_of_ne _ hne]

/-- A class of the new model is an old one or the new one. -/
theorem eq_or (h : model.Enrols after path) (hother : after.locate other = some id) :
    (other = path ∧ id = ⟨model.classes.size⟩) ∨ model.locate other = some id := by
  rw [h.locate] at hother
  rcases eq_or_of_grow hother with hnew | ⟨-, hold⟩
  · exact Or.inl hnew
  · exact Or.inr hold

theorem extends_locate (h : model.Enrols after path) : model.locate.Extends after.locate := by
  rw [h.locate]
  exact extends_grow h.fresh _

theorem fullname_eq (h : model.Enrols after path) (hid : id.index < model.classes.size) :
    after.fullname id = model.fullname id :=
  (h.old id hid).fullname

theorem mixins_new (h : model.Enrols after path) :
    (after.classAt ⟨model.classes.size⟩).mixins = [] :=
  h.new.mixins

theorem coherent (h : model.Enrols after path) (hmodel : model.Coherent) : after.Coherent where
  indexed := h.indexed
  bound other id hother := by
    rw [h.size]
    rcases h.eq_or hother with ⟨-, rfl⟩ | hother
    · exact Nat.lt_succ_self _
    · exact Nat.lt_succ_of_lt (hmodel.bound other id hother)
  injective := by
    -- An old class is below the size of the model, so it is not the new one.
    intro first second id hfirst hsecond
    rcases h.eq_or hfirst with ⟨rfl, rfl⟩ | hfirst
    · rcases h.eq_or hsecond with ⟨rfl, -⟩ | hsecond
      · rfl
      · exact absurd (hmodel.bound _ _ hsecond) (Nat.lt_irrefl _)
    · rcases h.eq_or hsecond with ⟨-, rfl⟩ | hsecond
      · exact absurd (hmodel.bound _ _ hfirst) (Nat.lt_irrefl _)
      · exact hmodel.injective _ _ _ hfirst hsecond
  covers id hid := by
    rw [h.size] at hid
    by_cases hbound : id.index < model.classes.size
    · obtain ⟨other, hother⟩ := hmodel.covers id hbound
      exact ⟨other, h.extends_locate other id hother⟩
    · have hid' : id = ⟨model.classes.size⟩ := congrArg ClassId.mk (by omega)
      exact ⟨path, hid' ▸ h.locate_self⟩
  fullname other id hother := by
    rcases h.eq_or hother with ⟨rfl, rfl⟩ | hother
    · exact h.new.fullname
    · rw [h.fullname_eq (hmodel.bound other id hother)]
      exact hmodel.fullname other id hother
  nodup := h.nodup
  order := h.order
  sources id mixin hmixin := by
    rw [h.size]
    rcases Nat.lt_trichotomy id.index model.classes.size with hlt | heq | hgt
    · rw [(h.old id hlt).mixins] at hmixin
      exact Nat.lt_succ_of_lt (hmodel.sources id mixin hmixin)
    · have hid : id = ⟨model.classes.size⟩ := congrArg ClassId.mk heq
      rw [hid, h.mixins_new] at hmixin
      cases hmixin
    · have hsize := h.size
      rw [classAt_of_size_le (by omega)] at hmixin
      cases hmixin

theorem methodNames_eq (h : model.Enrols after path) (hmodel : model.Coherent)
    (other : ClassPath) (side : MethodSide) :
    after.methodNames other side = model.methodNames other side := by
  by_cases heq : other = path
  · subst heq
    rw [methodNames_of_locate h.locate_self, methodNames_of_none h.fresh, h.new.methods side]
    cases side <;> rfl
  · rcases hother : model.locate other with _ | id
    · rw [methodNames_of_none hother, methodNames_of_none ((h.locate_of_ne heq).trans hother)]
    · rw [methodNames_of_locate hother, methodNames_of_locate ((h.locate_of_ne heq).trans hother),
        (h.old id (hmodel.bound other id hother)).methods side]

theorem mixinsAt_eq (h : model.Enrols after path) (hmodel : model.Coherent) (other : ClassPath) :
    after.mixinsAt other = model.mixinsAt other := by
  by_cases heq : other = path
  · subst heq
    rw [mixinsAt_of_locate h.locate_self, mixinsAt_of_none h.fresh, h.mixins_new, List.map_nil]
  · rcases hother : model.locate other with _ | id
    · rw [mixinsAt_of_none hother, mixinsAt_of_none ((h.locate_of_ne heq).trans hother)]
    · rw [mixinsAt_of_locate hother, mixinsAt_of_locate ((h.locate_of_ne heq).trans hother),
        (h.old id (hmodel.bound other id hother)).mixins]
      refine List.map_congr_left fun mixin hmixin => ?_
      rw [h.fullname_eq (hmodel.sources id mixin hmixin)]

end Enrols

/-- The model with a class under a new name. -/
def registering (name : String) (record : ClassRecord) (model : Model) : Model :=
  { (model.addClass record).2 with
    catalogue := model.catalogue.register name ⟨model.classes.size⟩ }

theorem define_of_some {model : Model} {name : String} {id : ClassId}
    (h : model.catalogue.find? name = some id) (record : ClassRecord) :
    model.define name record = (id, model) := by
  rw [define, h]

theorem define_of_none {model : Model} {name : String} (h : model.catalogue.find? name = none)
    (record : ClassRecord) :
    model.define name record = (⟨model.classes.size⟩, model.registering name record) := by
  rw [define, h]
  rfl

section Registering

variable {model : Model} {name : String} {record : ClassRecord}

theorem classAt_registering {id : ClassId} (hid : id.index < model.classes.size) :
    (model.registering name record).classAt id = model.classAt id :=
  classAt_of_push rfl hid

theorem classAt_registering_size :
    (model.registering name record).classAt ⟨model.classes.size⟩ = record :=
  classAt_of_push_size rfl

theorem Coherent.locate_registering (h : model.Coherent)
    (hnone : model.catalogue.find? name = none) (hrecord : record.companion = none) :
    (model.registering name record).locate =
      grow model.locate (.named name) ⟨model.classes.size⟩ := by
  apply locate_unique
  · intro other
    show _ = (model.catalogue.register name _).find? other
    rw [Catalogue.find?_register]
    split
    · rename_i heq
      rw [heq, grow_self]
    · rename_i hne
      exact grow_of_ne _ fun heq => hne (ClassPath.named_injective heq)
  · intro path
    rw [grow_of_ne _ (ClassPath.singleton_ne_named path name), locate_singleton]
    by_cases heq : path = .named name
    · rw [heq, grow_self, Option.bind_some, classAt_registering_size, hrecord, locate_named, hnone]
      rfl
    · rw [grow_of_ne _ heq]
      refine Option.bind_congr fun id hid => ?_
      rw [classAt_registering (h.bound path id hid)]

/-- A name that is new to the catalogue gets a class. -/
theorem Coherent.enrols_registering (h : model.Coherent)
    (hnone : model.catalogue.find? name = none) (hrecord : record.IsHeading name) :
    model.Enrols (model.registering name record) (.named name) where
  fresh := hnone
  locate := h.locate_registering hnone hrecord.companion
  size := Array.size_push ..
  indexed := h.indexed.of_push rfl hrecord.indexed
  old id hid := by
    rw [classAt_registering hid]
    exact .refl _
  new := by
    rw [classAt_registering_size]
    refine ⟨hrecord.fullname, hrecord.mixins, fun side => ?_⟩
    rw [hrecord.methods side]
    cases side <;> rfl
  nodup := by
    have hlast : (⟨model.classes.size⟩ : ClassId) ∉ model.catalogue.order := by
      intro hmem
      obtain ⟨other, hother⟩ := (h.order _).1 hmem
      exact Nat.lt_irrefl _ (h.bound _ _ hother)
    refine List.nodup_append.2 ⟨h.nodup, List.pairwise_singleton _ _, ?_⟩
    rintro id hid last hmem rfl
    exact hlast (List.mem_singleton.1 hmem ▸ hid)
  order id := by
    show id ∈ model.catalogue.order ++ [⟨model.classes.size⟩] ↔ _
    rw [List.mem_append, List.mem_singleton, h.order,
      h.locate_registering hnone hrecord.companion]
    constructor
    · rintro (⟨other, hother⟩ | rfl)
      · exact ⟨other, extends_grow hnone _ _ _ hother⟩
      · exact ⟨name, grow_self ..⟩
    · rintro ⟨other, hother⟩
      rcases eq_or_of_grow hother with ⟨-, rfl⟩ | ⟨-, hother⟩
      · exact Or.inr rfl
      · exact Or.inl ⟨other, hother⟩

end Registering

/-- The model with a singleton class for a class. -/
def attaching (id : ClassId) (model : Model) : Model :=
  (model.addClass (.companionOf id (model.classAt id))).2.modifyClass id fun record =>
    { record with companion := some ⟨model.classes.size⟩ }

theorem companion_of_some {model : Model} {id other : ClassId}
    (h : (model.classAt id).companion = some other) : model.companion id = (other, model) := by
  rw [companion, h]

theorem companion_of_none {model : Model} {id : ClassId}
    (h : (model.classAt id).companion = none) :
    model.companion id = (⟨model.classes.size⟩, model.attaching id) := by
  rw [companion, h]
  rfl

section Attaching

variable {model : Model} {path : ClassPath} {id : ClassId}

theorem classAt_attaching_self (hid : id.index < model.classes.size) :
    (model.attaching id).classAt id =
      { model.classAt id with companion := some ⟨model.classes.size⟩ } := by
  have hbound :
      id.index < (model.addClass (.companionOf id (model.classAt id))).2.classes.size := by
    show id.index < (model.classes.push _).size
    rw [Array.size_push]
    omega
  rw [attaching, classAt_modifyClass_self hbound, classAt_addClass hid]

theorem classAt_attaching_ne {other : ClassId} (hother : other.index < model.classes.size)
    (hne : other ≠ id) : (model.attaching id).classAt other = model.classAt other := by
  rw [attaching, classAt_modifyClass_ne hne, classAt_addClass hother]

theorem classAt_attaching_size (hid : id.index < model.classes.size) :
    (model.attaching id).classAt ⟨model.classes.size⟩ = .companionOf id (model.classAt id) := by
  rw [attaching, classAt_modifyClass_ne]
  · exact classAt_of_push_size rfl
  · rintro rfl
    exact Nat.lt_irrefl _ hid

theorem Coherent.locate_attaching (h : model.Coherent) (hpath : model.locate path = some id)
    (hfresh : model.locate path.singleton = none) :
    (model.attaching id).locate = grow model.locate path.singleton ⟨model.classes.size⟩ := by
  have hid := h.bound path id hpath
  apply locate_unique
  · intro name
    exact grow_of_ne _ (Ne.symm (ClassPath.singleton_ne_named path name))
  · intro other
    by_cases heq : other = path.singleton
    · rw [heq, grow_self, Option.bind_some, classAt_attaching_size hid,
        grow_of_ne _ (ClassPath.singleton_ne _), locate_singleton_of_eq_none hfresh]
      rfl
    · rw [grow_of_ne _ heq]
      by_cases hpath' : other = path
      · rw [hpath', grow_self, hpath, Option.bind_some, classAt_attaching_self hid]
      · rw [grow_of_ne _ fun hsame => hpath' (ClassPath.singleton_injective hsame),
          locate_singleton]
        refine Option.bind_congr fun given hgiven => ?_
        rw [classAt_attaching_ne (h.bound other given hgiven) (h.id_ne hgiven hpath hpath')]

/-- A class without a singleton class gets one. -/
theorem Coherent.enrols_attaching (h : model.Coherent) (hpath : model.locate path = some id)
    (hnone : (model.classAt id).companion = none) :
    model.Enrols (model.attaching id) path.singleton := by
  have hid := h.bound path id hpath
  have hfresh : model.locate path.singleton = none := by
    rw [locate_singleton, hpath, Option.bind_some, hnone]
  have hlocate := h.locate_attaching hpath hfresh
  exact
    { fresh := hfresh
      locate := hlocate
      size := (size_modifyClass _).trans (Array.size_push ..)
      indexed := by
        have hgrown := (model.grows_companion id h.indexed).1
        rw [companion_of_none hnone] at hgrown
        exact hgrown
      old := by
        intro given hgiven
        by_cases heq : given = id
        · rw [heq, classAt_attaching_self hid]
          exact ⟨rfl, rfl, fun side => by cases side <;> rfl⟩
        · rw [classAt_attaching_ne hgiven heq]
          exact .refl _
      new := by
        rw [classAt_attaching_size hid]
        refine ⟨?_, rfl, fun side => by cases side <;> rfl⟩
        show "#<Class:" ++ model.fullname id ++ ">" = _
        rw [h.fullname path id hpath]
        rfl
      nodup := h.nodup
      order := by
        intro given
        have hnamed (name : String) : (model.attaching id).locate (.named name) =
            model.locate (.named name) := by
          rw [hlocate, grow_of_ne _ (Ne.symm (ClassPath.singleton_ne_named path name))]
        simp only [hnamed]
        exact h.order given }

end Attaching

/-! ## A changed record -/

section Amend

variable {model : Model} {path : ClassPath} {id : ClassId} {change : ClassRecord → ClassRecord}

theorem fullname_modifyClass
    (hfullname : (change (model.classAt id)).fullname = (model.classAt id).fullname)
    (other : ClassId) : (model.modifyClass id change).fullname other = model.fullname other := by
  unfold Model.fullname
  by_cases heq : other = id
  · subst heq
    by_cases hbound : other.index < model.classes.size
    · rw [classAt_modifyClass_self hbound, hfullname]
    · rw [classAt_of_size_le, classAt_of_size_le]
      · omega
      · rw [size_modifyClass]
        omega
  · rw [classAt_modifyClass_ne heq]

/-- A class stays at its path if its singleton class stays. -/
theorem locate_modifyClass
    (hcompanion : (change (model.classAt id)).companion = (model.classAt id).companion) :
    (model.modifyClass id change).locate = model.locate := by
  refine locate_unique (fun _ => rfl) fun other => ?_
  rw [locate_singleton]
  refine Option.bind_congr fun given _ => ?_
  by_cases heq : given = id
  · subst heq
    by_cases hbound : given.index < model.classes.size
    · rw [classAt_modifyClass_self hbound, hcompanion]
    · rw [classAt_of_size_le, classAt_of_size_le]
      · rw [size_modifyClass]
        omega
      · omega
  · rw [classAt_modifyClass_ne heq]

namespace Coherent

/-- A record that keeps its name and its singleton class may be changed. -/
theorem modifyClass (h : model.Coherent)
    (hfullname : (change (model.classAt id)).fullname = (model.classAt id).fullname)
    (hcompanion : (change (model.classAt id)).companion = (model.classAt id).companion)
    (hindexed : (change (model.classAt id)).Indexed)
    (hsources : ∀ mixin ∈ (change (model.classAt id)).mixins,
      mixin.source.index < model.classes.size) : (model.modifyClass id change).Coherent where
  indexed := h.indexed.modifyClass fun _ => hindexed
  bound := by
    rw [locate_modifyClass hcompanion, size_modifyClass]
    exact h.bound
  injective := by
    rw [locate_modifyClass hcompanion]
    exact h.injective
  covers := by
    rw [locate_modifyClass hcompanion, size_modifyClass]
    exact h.covers
  fullname other given hgiven := by
    rw [locate_modifyClass hcompanion] at hgiven
    rw [fullname_modifyClass hfullname]
    exact h.fullname other given hgiven
  nodup := h.nodup
  order := by
    rw [locate_modifyClass hcompanion]
    exact h.order
  sources given mixin hmixin := by
    rw [size_modifyClass]
    by_cases heq : given = id
    · subst heq
      by_cases hbound : given.index < model.classes.size
      · rw [classAt_modifyClass_self hbound] at hmixin
        exact hsources mixin hmixin
      · rw [classAt_of_size_le (by rw [size_modifyClass]; omega)] at hmixin
        cases hmixin
    · rw [classAt_modifyClass_ne heq] at hmixin
      exact h.sources given mixin hmixin

theorem methodNames_modifyClass (h : model.Coherent) (hpath : model.locate path = some id)
    (hcompanion : (change (model.classAt id)).companion = (model.classAt id).companion)
    (other : ClassPath) (side : MethodSide) :
    (model.modifyClass id change).methodNames other side =
      if other = path then ((change (model.classAt id)).methods side).names
      else model.methodNames other side := by
  have hlocate := locate_modifyClass hcompanion
  split
  · rename_i heq
    rw [heq, methodNames_of_locate (hlocate ▸ hpath),
      classAt_modifyClass_self (h.bound path id hpath)]
  · rename_i hne
    rcases hgiven : model.locate other with _ | given
    · rw [methodNames_of_none hgiven, methodNames_of_none (hlocate ▸ hgiven)]
    · rw [methodNames_of_locate hgiven, methodNames_of_locate (hlocate ▸ hgiven),
        classAt_modifyClass_ne (h.id_ne hgiven hpath hne)]

theorem mixinsAt_modifyClass (h : model.Coherent) (hpath : model.locate path = some id)
    (hfullname : (change (model.classAt id)).fullname = (model.classAt id).fullname)
    (hcompanion : (change (model.classAt id)).companion = (model.classAt id).companion)
    (other : ClassPath) :
    (model.modifyClass id change).mixinsAt other =
      if other = path then (change (model.classAt id)).mixins.map fun mixin =>
        (mixin.kind, model.fullname mixin.source)
      else model.mixinsAt other := by
  have hlocate := locate_modifyClass hcompanion
  split
  · rename_i heq
    rw [heq, mixinsAt_of_locate (hlocate ▸ hpath),
      classAt_modifyClass_self (h.bound path id hpath)]
    simp only [fullname_modifyClass hfullname]
  · rename_i hne
    rcases hgiven : model.locate other with _ | given
    · rw [mixinsAt_of_none hgiven, mixinsAt_of_none (hlocate ▸ hgiven)]
    · rw [mixinsAt_of_locate hgiven, mixinsAt_of_locate (hlocate ▸ hgiven),
        classAt_modifyClass_ne (h.id_ne hgiven hpath hne)]
      simp only [fullname_modifyClass hfullname]

end Coherent

end Amend

end Model

end ClassIndex
