import ClassIndex.Proofs.Survey
import Mathlib.Data.List.Forall2

/-!
# Models of surveys

`Represents ids survey model` says that a model holds what a survey tells by name: `ids` gives the
identity of each class that the survey knows, the record of that class says the same as the survey,
and there are no other classes.  Each operation of the model that a declaration uses keeps this up,
together with what it does to the survey (`Represents.defineIn`, `companion`, `defineMethod` and
`mixIn`), and no class loses its identity by it (`Identities.Extends`).  The identities are not a
choice: they are those that the model itself gives (`Represents.eq_locate`).
-/

namespace ClassIndex

/-- Identities of classes, for those that have one. -/
abbrev Identities : Type :=
  ClassPath → Option ClassId

/-- Every class keeps its identity. -/
def Identities.Extends (ids ids' : Identities) : Prop :=
  ∀ path id, ids path = some id → ids' path = some id

theorem Identities.Extends.refl (ids : Identities) : ids.Extends ids :=
  fun _ _ h => h

theorem Identities.Extends.trans {ids₁ ids₂ ids₃ : Identities} (h₁ : ids₁.Extends ids₂)
    (h₂ : ids₂.Extends ids₃) : ids₁.Extends ids₃ :=
  fun path id h => h₂ path id (h₁ path id h)

/-- The class at an optional path is the one with an optional identity. -/
abbrev Identities.Agree (ids : Identities) (path : Option ClassPath) (id : Option ClassId) : Prop :=
  Option.Rel (fun path id => ids path = some id) path id

/-- An identity stands for a method with a given owner, name and signature. -/
def IsMethod (ids : Identities) (model : Model) (owner : ClassPath) (name : String)
    (method : MethodId) (parameters : List Parameter) : Prop :=
  method.index < model.methods.size ∧ ∃ id, ids owner = some id ∧
    model.methodAt method = { name := name, owner := some id, parameters := parameters }

/-- A table holds methods with given names and signatures, in order, all with the same owner. -/
structure Lists (ids : Identities) (model : Model) (owner : ClassPath) (table : MethodTable)
    (methods : List (String × List Parameter)) : Prop where
  indexed : table.Indexed
  entries : List.Forall₂ (fun entry method => entry.1 = method.1 ∧
      IsMethod ids model owner method.1 entry.2 method.2) table.entries.toList methods

/-- A record says the same about a class as a survey with these members. -/
structure Describes (ids : Identities) (model : Model) (survey : Survey) (path : ClassPath)
    (members : Members) (record : ClassRecord) : Prop where
  fullname : record.fullname = path.fullname
  kind : record.kind = (survey.headingAt path).kind
  superclass : ids.Agree ((survey.headingAt path).superclass.map .named) record.superclass
  enclosing : ids.Agree (survey.headingAt path).enclosing record.enclosing
  attached : ids.Agree path.base? record.attached
  companion : record.companion = ids path.singleton
  instanceMethods : Lists ids model path record.instanceMethods members.instanceMethods
  classMethods : Lists ids model path.singleton record.classMethods members.classMethods
  mixins : List.Forall₂ (fun mixin entry => entry.kind = mixin.1 ∧
    ids (.named mixin.2) = some entry.source) members.mixins record.mixins

/-- A model holds what a survey tells. -/
structure Represents (ids : Identities) (survey : Survey) (model : Model) : Prop where
  nodup : survey.names.Nodup
  /-- The classes are registered in the order of their first mention. -/
  order : List.Forall₂ (fun name id => ids (.named name) = some id) survey.names
    model.catalogue.order
  find : ∀ name, model.catalogue.find? name = ids (.named name)
  known : ∀ name, name ∈ survey.names ↔ (ids (.named name)).isSome
  base : ∀ path, ids path = none → ids path.singleton = none
  injective : ∀ path other id, ids path = some id → ids other = some id → path = other
  bound : ∀ path id, ids path = some id → id.index < model.classes.size
  /-- There are no other classes. -/
  covers : ∀ id : ClassId, id.index < model.classes.size → ∃ path, ids path = some id
  absent : ∀ path, ids path = none → survey.members path = none
  describes : ∀ path id, ids path = some id → ∃ members, survey.members path = some members ∧
    Describes ids model survey path members (model.classAt id)

/-! ## Records of a model -/

namespace Model

variable {model after : Model} {id : ClassId}

theorem classAt_of_push {record : ClassRecord}
    (hclasses : after.classes = model.classes.push record)
    (hid : id.index < model.classes.size) : after.classAt id = model.classAt id := by
  unfold classAt
  rw [hclasses, Array.getElem?_push_lt hid, Array.getElem?_eq_getElem hid]

theorem classAt_of_push_size {record : ClassRecord}
    (hclasses : after.classes = model.classes.push record) :
    after.classAt ⟨model.classes.size⟩ = record := by
  unfold classAt
  rw [hclasses, Array.getElem?_push_size, Option.getD_some]

theorem classAt_addClass {record : ClassRecord} (hid : id.index < model.classes.size) :
    (model.addClass record).2.classAt id = model.classAt id :=
  classAt_of_push rfl hid

theorem classAt_modifyClass_self {change : ClassRecord → ClassRecord}
    (hid : id.index < model.classes.size) :
    (model.modifyClass id change).classAt id = change (model.classAt id) := by
  unfold classAt modifyClass
  rw [Array.getElem?_modify, if_pos rfl, Array.getElem?_eq_getElem hid, Option.map_some,
    Option.getD_some, Option.getD_some]

theorem classAt_modifyClass_ne {change : ClassRecord → ClassRecord} {other : ClassId}
    (hne : other ≠ id) : (model.modifyClass id change).classAt other = model.classAt other := by
  have hindex : id.index ≠ other.index := fun h => hne (by cases other; cases id; cases h; rfl)
  unfold classAt modifyClass
  rw [Array.getElem?_modify, if_neg hindex]

theorem size_modifyClass (change : ClassRecord → ClassRecord) :
    (model.modifyClass id change).classes.size = model.classes.size :=
  Array.size_modify

/-- Every method of the first model is in the second one, with the same record. -/
def KeepsMethods (model after : Model) : Prop :=
  ∀ method : MethodId, method.index < model.methods.size →
    method.index < after.methods.size ∧ after.methodAt method = model.methodAt method

theorem keepsMethods_of_eq (h : after.methods = model.methods) : model.KeepsMethods after := by
  intro method hmethod
  unfold methodAt
  rw [h]
  exact ⟨hmethod, rfl⟩

theorem keepsMethods_addMethod (record : MethodRecord) :
    model.KeepsMethods (model.addMethod record).2 := by
  intro method hmethod
  refine ⟨?_, ?_⟩
  · show method.index < (model.methods.push record).size
    rw [Array.size_push]
    omega
  · show (model.methods.push record)[method.index]?.getD default = _
    rw [Array.getElem?_push_lt hmethod]
    unfold methodAt
    rw [Array.getElem?_eq_getElem hmethod]

theorem size_addMethod (record : MethodRecord) :
    (model.addMethod record).1.index < (model.addMethod record).2.methods.size := by
  show model.methods.size < (model.methods.push record).size
  rw [Array.size_push]
  exact Nat.lt_succ_self _

theorem methodAt_addMethod (record : MethodRecord) :
    (model.addMethod record).2.methodAt (model.addMethod record).1 = record := by
  show (model.methods.push record)[model.methods.size]?.getD default = record
  rw [Array.getElem?_push_size, Option.getD_some]

end Model

/-! ## More identities, more methods -/

theorem upsert_forall₂ {α β : Type} {R : String → α → β → Prop} {name : String} {value : α}
    {other : β} {pairs : List (String × α)} {others : List (String × β)}
    (hvalue : R name value other)
    (h : List.Forall₂ (fun pair other => pair.1 = other.1 ∧ R other.1 pair.2 other.2) pairs
      others) :
    List.Forall₂ (fun pair other => pair.1 = other.1 ∧ R other.1 pair.2 other.2)
      (upsert name value pairs) (upsert name other others) := by
  induction h with
  | nil => exact .cons ⟨rfl, hvalue⟩ .nil
  | @cons first second rest rest' hhead htail ih =>
    rcases first with ⟨key, old⟩
    rcases second with ⟨key', old'⟩
    cases hhead.1
    unfold upsert
    split
    · exact .cons ⟨rfl, hvalue⟩ htail
    · exact .cons hhead ih

section Monotone

variable {ids ids' : Identities} {model after : Model} {survey survey' : Survey}

theorem Lists.mono {owner : ClassPath} {table : MethodTable}
    {methods : List (String × List Parameter)} (h : Lists ids model owner table methods)
    (hids : ids.Extends ids') (hmethods : model.KeepsMethods after) :
    Lists ids' after owner table methods := by
  refine ⟨h.indexed, h.entries.imp ?_⟩
  rintro entry method ⟨hname, hindex, id, hid, hrecord⟩
  obtain ⟨hindex', hsame⟩ := hmethods entry.2 hindex
  exact ⟨hname, hindex', id, hids owner id hid, hsame.trans hrecord⟩

theorem lists_empty (owner : ClassPath) : Lists ids model owner {} [] :=
  ⟨MethodTable.indexed_empty, .nil⟩

/-- One more method in a table is one more in the list, or takes the place of an older one. -/
theorem Lists.insert {owner : ClassPath} {table : MethodTable}
    {methods : List (String × List Parameter)} {method : MethodId} {name : String}
    {parameters : List Parameter} (h : Lists ids model owner table methods)
    (hmethod : IsMethod ids model owner name method parameters) :
    Lists ids model owner (table.insert name method) (upsert name parameters methods) := by
  refine ⟨h.indexed.insert, ?_⟩
  rw [h.indexed.toList_insert]
  exact upsert_forall₂ hmethod h.entries

theorem Identities.Agree.mono {path : Option ClassPath} {id : Option ClassId}
    (h : ids.Agree path id) (hids : ids.Extends ids') : ids'.Agree path id := by
  cases h with
  | some h => exact .some (hids _ _ h)
  | none => exact .none

/-- A description stays true when other classes get identities and other methods are added; the
singleton class has to be the one of the new identities. -/
theorem Describes.withCompanion {path : ClassPath} {members : Members} {record : ClassRecord}
    {companion : Option ClassId} (h : Describes ids model survey path members record)
    (hids : ids.Extends ids') (hmethods : model.KeepsMethods after)
    (hheading : survey'.headingAt path = survey.headingAt path)
    (hcompanion : companion = ids' path.singleton) :
    Describes ids' after survey' path members { record with companion := companion } where
  fullname := h.fullname
  kind := by rw [hheading]; exact h.kind
  superclass := by rw [hheading]; exact h.superclass.mono hids
  enclosing := by rw [hheading]; exact h.enclosing.mono hids
  attached := h.attached.mono hids
  companion := hcompanion
  instanceMethods := h.instanceMethods.mono hids hmethods
  classMethods := h.classMethods.mono hids hmethods
  mixins := h.mixins.imp fun _ _ hmixin => ⟨hmixin.1, hids _ _ hmixin.2⟩

theorem Describes.mono {path : ClassPath} {members : Members} {record : ClassRecord}
    (h : Describes ids model survey path members record) (hids : ids.Extends ids')
    (hmethods : model.KeepsMethods after)
    (hheading : survey'.headingAt path = survey.headingAt path)
    (hcompanion : ids' path.singleton = ids path.singleton) :
    Describes ids' after survey' path members record :=
  h.withCompanion hids hmethods hheading (h.companion.trans hcompanion.symm)

end Monotone

/-! ## Operations of the model -/

namespace Represents

variable {ids : Identities} {survey : Survey} {model : Model}

/-- The identities with one for a class that had none. -/
def grow (ids : Identities) (path : ClassPath) (id : ClassId) : Identities :=
  Function.update ids path (some id)

theorem grow_self (path : ClassPath) (id : ClassId) : grow ids path id path = some id :=
  Function.update_self ..

theorem grow_of_ne {path other : ClassPath} (id : ClassId) (h : other ≠ path) :
    grow ids path id other = ids other :=
  Function.update_of_ne h ..

theorem extends_grow {path : ClassPath} (h : ids path = none) (id : ClassId) :
    ids.Extends (grow ids path id) := by
  intro other given hother
  rw [grow_of_ne id (by rintro rfl; rw [h] at hother; cases hother)]
  exact hother

theorem eq_or_of_grow {path other : ClassPath} {id given : ClassId}
    (h : grow ids path id other = some given) :
    (other = path ∧ given = id) ∨ (other ≠ path ∧ ids other = some given) := by
  by_cases hother : other = path
  · subst hother
    rw [grow_self] at h
    cases h
    exact Or.inl ⟨rfl, rfl⟩
  · rw [grow_of_ne id hother] at h
    exact Or.inr ⟨hother, h⟩

theorem of_grow_eq_none {path other : ClassPath} {id : ClassId}
    (h : grow ids path id other = none) : other ≠ path ∧ ids other = none := by
  have hne : other ≠ path := by
    rintro rfl
    rw [grow_self] at h
    cases h
  rw [grow_of_ne id hne] at h
  exact ⟨hne, h⟩

/-- Different classes have different identities. -/
theorem id_ne (h : Represents ids survey model) {path other : ClassPath} {id given : ClassId}
    (hother : ids other = some given) (hpath : ids path = some id) (hne : other ≠ path) :
    given ≠ id := by
  rintro rfl
  exact hne (h.injective _ _ _ hother hpath)

section Add

variable {path : ClassPath} {survey' : Survey} {after : Model}

/-- An old identity is below the size of the model, so it is not the new one. -/
theorem grow_injective (h : Represents ids survey model) {first second : ClassPath} {id : ClassId}
    (hfirst : grow ids path ⟨model.classes.size⟩ first = some id)
    (hsecond : grow ids path ⟨model.classes.size⟩ second = some id) : first = second := by
  rcases eq_or_of_grow hfirst with ⟨rfl, rfl⟩ | ⟨-, hfirst'⟩
  · rcases eq_or_of_grow hsecond with ⟨rfl, -⟩ | ⟨-, hsecond'⟩
    · rfl
    · exact absurd (h.bound _ _ hsecond') (Nat.lt_irrefl _)
  · rcases eq_or_of_grow hsecond with ⟨-, rfl⟩ | ⟨-, hsecond'⟩
    · exact absurd (h.bound _ _ hfirst') (Nat.lt_irrefl _)
    · exact h.injective _ _ _ hfirst' hsecond'

theorem grow_bound (h : Represents ids survey model)
    (hsize : after.classes.size = model.classes.size + 1) {other : ClassPath} {id : ClassId}
    (hother : grow ids path ⟨model.classes.size⟩ other = some id) :
    id.index < after.classes.size := by
  rw [hsize]
  rcases eq_or_of_grow hother with ⟨-, rfl⟩ | ⟨-, hother⟩
  · exact Nat.lt_succ_self _
  · exact Nat.lt_succ_of_lt (h.bound _ _ hother)

theorem grow_covers (h : Represents ids survey model) (hpath : ids path = none)
    (hsize : after.classes.size = model.classes.size + 1) {id : ClassId}
    (hid : id.index < after.classes.size) :
    ∃ other, grow ids path ⟨model.classes.size⟩ other = some id := by
  rw [hsize] at hid
  rcases Nat.lt_succ_iff_lt_or_eq.1 hid with hlt | heq
  · obtain ⟨other, hother⟩ := h.covers id hlt
    exact ⟨other, extends_grow hpath _ other id hother⟩
  · refine ⟨path, ?_⟩
    rw [grow_self, ← heq]

/-- A class that is added gets the next identity. What is asked for is that the new class and all
the old ones are described, and that the catalogue agrees. -/
theorem add (h : Represents ids survey model) (hpath : ids path = none)
    (hsize : after.classes.size = model.classes.size + 1)
    (hmembers : survey'.members = Function.update survey.members path (some {}))
    (hnodup : survey'.names.Nodup)
    (horder : List.Forall₂ (fun name id => grow ids path ⟨model.classes.size⟩ (.named name) =
      some id) survey'.names after.catalogue.order)
    (hfind : ∀ name, after.catalogue.find? name =
      grow ids path ⟨model.classes.size⟩ (.named name))
    (hknown : ∀ name, name ∈ survey'.names ↔
      (grow ids path ⟨model.classes.size⟩ (.named name)).isSome)
    (hbase : ∀ other, grow ids path ⟨model.classes.size⟩ other = none →
      grow ids path ⟨model.classes.size⟩ other.singleton = none)
    (hold : ∀ other id members, ids other = some id → other ≠ path →
      Describes ids model survey other members (model.classAt id) →
      Describes (grow ids path ⟨model.classes.size⟩) after survey' other members
        (after.classAt id))
    (hnew : Describes (grow ids path ⟨model.classes.size⟩) after survey' path {}
      (after.classAt ⟨model.classes.size⟩)) :
    Represents (grow ids path ⟨model.classes.size⟩) survey' after where
  nodup := hnodup
  order := horder
  find := hfind
  known := hknown
  base := hbase
  injective _ _ _ := h.grow_injective
  bound _ _ := h.grow_bound hsize
  covers _ := h.grow_covers hpath hsize
  absent := by
    intro other hother
    obtain ⟨hne, hother⟩ := of_grow_eq_none hother
    rw [hmembers, Function.update_of_ne hne]
    exact h.absent other hother
  describes := by
    intro other id hother
    rw [hmembers]
    rcases eq_or_of_grow hother with ⟨rfl, rfl⟩ | ⟨hne, hother⟩
    · exact ⟨{}, Function.update_self .., hnew⟩
    · obtain ⟨members, hmembers, hdescribes⟩ := h.describes other id hother
      exact ⟨members, (Function.update_of_ne hne ..).trans hmembers,
        hold other id members hother hne hdescribes⟩

end Add

section Register

variable {name : String} {heading : Heading} {superclass enclosing : Option ClassId}

theorem find?_register_grow (h : Represents ids survey model) (id : ClassId) (other : String) :
    (model.catalogue.register name id).find? other = grow ids (.named name) id (.named other) := by
  rw [Catalogue.find?_register]
  split
  · rename_i heq
    rw [heq, grow_self]
  · rename_i hne
    rw [grow_of_ne _ fun heq => hne (ClassPath.named_injective heq)]
    exact h.find other

theorem mem_names_grow_iff (h : Represents ids survey model) (id : ClassId) (other : String) :
    other ∈ survey.names ++ [name] ↔ (grow ids (.named name) id (.named other)).isSome := by
  rw [List.mem_append, List.mem_singleton, h.known]
  by_cases heq : other = name
  · rw [heq, grow_self]
    exact ⟨fun _ => rfl, fun _ => Or.inr rfl⟩
  · rw [grow_of_ne _ fun hpath => heq (ClassPath.named_injective hpath)]
    exact ⟨fun hor => hor.resolve_right heq, Or.inl⟩

/-- The record of a new name says what its heading says, and has no members. -/
theorem describes_registered (h : Represents ids survey model) {survey' : Survey} {after : Model}
    (id : ClassId) (hname : ids (.named name) = none)
    (hheading : survey'.headingAt (.named name) = heading)
    (hsuperclass : ids.Agree (heading.superclass.map .named) superclass)
    (henclosing : ids.Agree heading.enclosing enclosing) :
    Describes (grow ids (.named name) id) after survey' (.named name) {}
      { fullname := name, kind := heading.kind, superclass := superclass,
        enclosing := enclosing } where
  fullname := rfl
  kind := by rw [hheading]
  superclass := by rw [hheading]; exact hsuperclass.mono (extends_grow hname id)
  enclosing := by rw [hheading]; exact henclosing.mono (extends_grow hname id)
  attached := .none
  companion := by rw [grow_of_ne _ (ClassPath.singleton_ne_named _ name), h.base _ hname]
  instanceMethods := lists_empty _
  classMethods := lists_empty _
  mixins := .nil

/-- A name that is mentioned for the first time. -/
theorem register (h : Represents ids survey model) (hname : ids (.named name) = none)
    (hsuperclass : ids.Agree (heading.superclass.map .named) superclass)
    (henclosing : ids.Agree heading.enclosing enclosing) :
    Represents (grow ids (.named name) ⟨model.classes.size⟩) (survey.mention name heading)
      { model with
        classes := model.classes.push
          { fullname := name, kind := heading.kind, superclass := superclass,
            enclosing := enclosing }
        catalogue := model.catalogue.register name ⟨model.classes.size⟩ } := by
  have hunknown : name ∉ survey.names := by
    rw [h.known, hname]
    exact nofun
  have hmention : survey.mention name heading =
      { names := survey.names ++ [name]
        heading := Function.update survey.heading name heading
        members := Function.update survey.members (.named name) (some {}) } := if_neg hunknown
  have hextends := extends_grow hname ⟨model.classes.size⟩
  rw [hmention]
  refine h.add hname (Array.size_push ..) rfl (nodup_append_singleton h.nodup hunknown) ?_
    (h.find?_register_grow _) (h.mem_names_grow_iff _) ?_ ?_ ?_
  · refine List.rel_append (h.order.imp fun _ _ => hextends _ _) (.cons ?_ .nil)
    exact grow_self ..
  · intro other hother
    rw [grow_of_ne _ (ClassPath.singleton_ne_named other name)]
    exact h.base other (of_grow_eq_none hother).2
  · intro other id members hother hne hdescribes
    rw [Model.classAt_of_push rfl (h.bound _ _ hother)]
    refine hdescribes.mono hextends (Model.keepsMethods_of_eq rfl) ?_
      (grow_of_ne _ (ClassPath.singleton_ne_named other name))
    rcases other with ⟨other, _ | level⟩
    · exact Function.update_of_ne (fun heq => hne (by rw [heq]; rfl)) ..
    · rfl
  · rw [Model.classAt_of_push_size rfl]
    exact h.describes_registered _ hname (Function.update_self ..) hsuperclass henclosing

end Register

/-- Defining a class registers it if it is new, and otherwise finds it. -/
theorem define (h : Represents ids survey model) {name : String} {heading : Heading}
    {superclass enclosing : Option ClassId}
    (hsuperclass : ids.Agree (heading.superclass.map .named) superclass)
    (henclosing : ids.Agree heading.enclosing enclosing) :
    let record : ClassRecord :=
      { fullname := name, kind := heading.kind, superclass := superclass, enclosing := enclosing }
    ∃ ids', Represents ids' (survey.mention name heading) (model.define name record).2 ∧
      ids.Extends ids' ∧ ids' (.named name) = some (model.define name record).1 := by
  intro record
  unfold Model.define
  rcases hfind : model.catalogue.find? name with _ | id
  · have hname : ids (.named name) = none := (h.find name).symm.trans hfind
    exact ⟨_, h.register hname hsuperclass henclosing, extends_grow hname _, grow_self ..⟩
  · have hname : ids (.named name) = some id := (h.find name).symm.trans hfind
    have hmention : survey.mention name heading = survey :=
      if_pos ((h.known name).2 (by rw [hname]; rfl))
    refine ⟨ids, ?_, .refl ids, hname⟩
    rw [hmention]
    exact h

/-- A scope qualifies names in the same way by its path and by its identity. -/
theorem qualify_eq (h : Represents ids survey model) {scope : Option ClassPath}
    {enclosing : Option ClassId} (hscope : ids.Agree scope enclosing) (name : String) :
    model.qualify enclosing name = ClassPath.qualify scope name := by
  cases hscope with
  | none => rfl
  | some hpath =>
    obtain ⟨members, -, hdescribes⟩ := h.describes _ _ hpath
    show (model.classAt _).fullname ++ "::" ++ name = _
    rw [hdescribes.fullname]
    rfl

/-- Defining a class in a scope mentions its qualified name. -/
theorem defineIn (h : Represents ids survey model) {scope : Option ClassPath}
    {enclosing parent : Option ClassId} {superclass : Option String}
    {record : String → ClassRecord} (name : String) (kind : ClassKind)
    (hrecord : record = fun fullname =>
      { fullname := fullname, kind := kind, superclass := parent, enclosing := enclosing })
    (hparent : ids.Agree (superclass.map .named) parent) (hscope : ids.Agree scope enclosing) :
    ∃ ids', Represents ids'
        (survey.mention (ClassPath.qualify scope name) ⟨kind, superclass, scope⟩)
        (model.defineIn enclosing name record).2 ∧ ids.Extends ids' ∧
      ids' (.named (ClassPath.qualify scope name)) =
        some (model.defineIn enclosing name record).1 := by
  subst hrecord
  rw [Model.defineIn, h.qualify_eq hscope]
  exact h.define hparent hscope

section Attach

variable {path : ClassPath} {id : ClassId}

theorem grow_singleton_base (h : Represents ids survey model) (hpath : ids path = some id)
    {given : ClassId} {other : ClassPath}
    (hother : grow ids path.singleton given other = none) :
    grow ids path.singleton given other.singleton = none := by
  obtain ⟨-, hother⟩ := of_grow_eq_none hother
  rw [grow_of_ne _ ?_]
  · exact h.base other hother
  · intro heq
    rw [ClassPath.singleton_injective heq, hpath] at hother
    cases hother

theorem describes_companionOf (h : Represents ids survey model) {survey' : Survey} {after : Model}
    (given : ClassId) (hpath : ids path = some id) (hsingleton : ids path.singleton = none) :
    Describes (grow ids path.singleton given) after survey' path.singleton {}
      (.companionOf id (model.classAt id)) where
  fullname := by
    obtain ⟨members, -, hdescribes⟩ := h.describes path id hpath
    rw [ClassRecord.companionOf, hdescribes.fullname]
    rfl
  kind := rfl
  superclass := .none
  enclosing := .none
  attached := .some (extends_grow hsingleton given _ _ hpath)
  companion := by
    rw [grow_of_ne _ (ClassPath.singleton_ne _), h.base _ hsingleton]
    rfl
  instanceMethods := lists_empty _
  classMethods := lists_empty _
  mixins := .nil

/-- The classes that were there are described as before; the record of the class itself names its
new companion. -/
theorem describes_attached (h : Represents ids survey model) (known : ClassPath → Option Members)
    (hpath : ids path = some id) (hsingleton : ids path.singleton = none) {other : ClassPath}
    {given : ClassId} {members : Members} (hother : ids other = some given)
    (hdescribes : Describes ids model survey other members (model.classAt given)) :
    let after := (model.addClass (.companionOf id (model.classAt id))).2.modifyClass id
      fun record => { record with companion := some ⟨model.classes.size⟩ }
    Describes (grow ids path.singleton ⟨model.classes.size⟩) after { survey with members := known }
      other members (after.classAt given) := by
  intro after
  have hextends := extends_grow hsingleton ⟨model.classes.size⟩
  have hsize : (model.addClass (.companionOf id (model.classAt id))).2.classes.size =
      model.classes.size + 1 := Array.size_push ..
  have hid : id.index < model.classes.size := h.bound _ _ hpath
  by_cases heq : other = path
  · subst heq
    rw [hpath] at hother
    cases hother
    rw [Model.classAt_modifyClass_self (by omega), Model.classAt_addClass hid]
    exact hdescribes.withCompanion hextends (Model.keepsMethods_of_eq rfl) rfl (grow_self ..).symm
  · rw [Model.classAt_modifyClass_ne (h.id_ne hother hpath heq),
      Model.classAt_addClass (h.bound _ _ hother)]
    exact hdescribes.mono hextends (Model.keepsMethods_of_eq rfl) rfl
      (grow_of_ne _ fun hsame => heq (ClassPath.singleton_injective hsame))

/-- A singleton class that is asked for for the first time. -/
theorem attach (h : Represents ids survey model) (hpath : ids path = some id)
    (hsingleton : ids path.singleton = none) :
    Represents (grow ids path.singleton ⟨model.classes.size⟩) (survey.openSingleton path)
      ((model.addClass (.companionOf id (model.classAt id))).2.modifyClass id
        fun record => { record with companion := some ⟨model.classes.size⟩ }) := by
  have hopen : survey.openSingleton path =
      { survey with members := Function.update survey.members path.singleton (some {}) } := by
    rw [Survey.openSingleton, h.absent _ hsingleton]
  have hcatalogue (name : String) : grow ids path.singleton ⟨model.classes.size⟩ (.named name) =
      ids (.named name) := grow_of_ne _ (Ne.symm (ClassPath.singleton_ne_named path name))
  have hsize : (model.addClass (.companionOf id (model.classAt id))).2.classes.size =
      model.classes.size + 1 := Array.size_push ..
  have hne : (⟨model.classes.size⟩ : ClassId) ≠ id := by
    rintro rfl
    exact Nat.lt_irrefl _ (h.bound _ _ hpath)
  rw [hopen]
  refine h.add hsingleton ((Model.size_modifyClass _).trans hsize) rfl h.nodup ?_ ?_ ?_ ?_ ?_ ?_
  · exact h.order.imp fun _ _ => extends_grow hsingleton _ _ _
  · intro name
    rw [hcatalogue]
    exact h.find name
  · intro name
    rw [hcatalogue]
    exact h.known name
  · exact fun _ => h.grow_singleton_base hpath
  · intro other given members hother _ hdescribes
    exact h.describes_attached _ hpath hsingleton hother hdescribes
  · rw [Model.classAt_modifyClass_ne hne, show Model.classAt _ ⟨model.classes.size⟩ = _ from
      Model.classAt_of_push_size rfl]
    exact h.describes_companionOf _ hpath hsingleton

end Attach

/-- The singleton class of a class is found, or added if nothing has asked for it yet. -/
theorem companion (h : Represents ids survey model) {path : ClassPath} {id : ClassId}
    (hpath : ids path = some id) :
    ∃ ids', Represents ids' (survey.openSingleton path) (model.companion id).2 ∧
      ids.Extends ids' ∧ ids' path.singleton = some (model.companion id).1 := by
  obtain ⟨members, -, hdescribes⟩ := h.describes path id hpath
  unfold Model.companion
  rcases hcompanion : (model.classAt id).companion with _ | other
  · have hsingleton : ids path.singleton = none := hdescribes.companion.symm.trans hcompanion
    exact ⟨_, h.attach hpath hsingleton, extends_grow hsingleton _, grow_self ..⟩
  · have hsingleton : ids path.singleton = some other := hdescribes.companion.symm.trans hcompanion
    obtain ⟨_, hmembers, -⟩ := h.describes _ _ hsingleton
    have hopen : survey.openSingleton path = survey := by
      rw [Survey.openSingleton, hmembers]
    refine ⟨ids, ?_, .refl ids, hsingleton⟩
    rw [hopen]
    exact h

section Modify

variable {path : ClassPath} {id : ClassId} {change : Members → Members}
  {edit : ClassRecord → ClassRecord} {after : Model}

/-- The changed record says what the changed members say, and the other records are left alone. -/
theorem describes_modified (h : Represents ids survey model) (hpath : ids path = some id)
    (hclasses : after.classes = model.classes) (hmethods : model.KeepsMethods after)
    (hedit : ∀ members, Describes ids after survey path members (model.classAt id) →
      Describes ids after survey path (change members) (edit (model.classAt id)))
    {other : ClassPath} {given : ClassId} (hother : ids other = some given) :
    ∃ members, (survey.amend path change).members other = some members ∧
      Describes ids (after.modifyClass id edit) (survey.amend path change) other members
        ((after.modifyClass id edit).classAt given) := by
  obtain ⟨members, hmembers, hdescribes⟩ := h.describes other given hother
  have hsame (id : ClassId) : after.classAt id = model.classAt id := by
    rw [Model.classAt, hclasses]
    rfl
  by_cases heq : other = path
  · subst heq
    rw [hpath] at hother
    cases hother
    refine ⟨change members, ?_, ?_⟩
    · show Function.update _ _ _ _ = _
      rw [Function.update_self, hmembers, Option.map_some]
    · have hbound : id.index < after.classes.size := by
        rw [hclasses]
        exact h.bound _ _ hpath
      rw [Model.classAt_modifyClass_self hbound, hsame]
      have hedited := hedit members (hdescribes.mono (.refl ids) hmethods rfl rfl)
      exact hedited.mono (.refl ids) (Model.keepsMethods_of_eq rfl) rfl rfl
  · refine ⟨members, (Function.update_of_ne heq ..).trans hmembers, ?_⟩
    rw [Model.classAt_modifyClass_ne (h.id_ne hother hpath heq), hsame]
    exact hdescribes.mono (.refl ids) hmethods rfl rfl

/-- A change of one record, to what the changed members say. -/
theorem modify (h : Represents ids survey model) (hpath : ids path = some id)
    (hcatalogue : after.catalogue = model.catalogue)
    (hclasses : after.classes = model.classes) (hmethods : model.KeepsMethods after)
    (hedit : ∀ members, Describes ids after survey path members (model.classAt id) →
      Describes ids after survey path (change members) (edit (model.classAt id))) :
    Represents ids (survey.amend path change) (after.modifyClass id edit) where
  nodup := h.nodup
  order := by
    show List.Forall₂ _ survey.names after.catalogue.order
    rw [hcatalogue]
    exact h.order
  find := by
    intro name
    show after.catalogue.find? name = _
    rw [hcatalogue]
    exact h.find name
  known := h.known
  base := h.base
  injective := h.injective
  bound := by
    intro other given hother
    rw [Model.size_modifyClass, hclasses]
    exact h.bound other given hother
  covers := by
    intro given hgiven
    rw [Model.size_modifyClass, hclasses] at hgiven
    exact h.covers given hgiven
  absent := by
    intro other hother
    have hne : other ≠ path := by
      rintro rfl
      rw [hpath] at hother
      cases hother
    exact (Function.update_of_ne hne ..).trans (h.absent other hother)
  describes _ _ := h.describes_modified hpath hclasses hmethods hedit

end Modify

theorem mixIn (h : Represents ids survey model) {path : ClassPath} {id source : ClassId}
    {name : String} (kind : MixinKind) (hpath : ids path = some id)
    (hsource : ids (.named name) = some source) :
    Represents ids (survey.amend path (·.addMixin kind name)) (model.mixIn kind id source) := by
  refine h.modify hpath rfl rfl (Model.keepsMethods_of_eq rfl) fun members hdescribes => ?_
  have hlast : List.Forall₂ (fun (mixin : MixinKind × String) (entry : Mixin) =>
      entry.kind = mixin.1 ∧ ids (.named mixin.2) = some entry.source)
      [(kind, name)] [⟨kind, source⟩] := .cons ⟨rfl, hsource⟩ .nil
  exact { hdescribes with mixins := List.rel_append hdescribes.mixins hlast }

/-- A method that is added and entered into a table, once its owner has an identity. -/
theorem enterMethod (h : Represents ids survey model) {path : ClassPath} {id owner : ClassId}
    (side : MethodSide) (name : String) (parameters : List Parameter)
    (hpath : ids path = some id) (howner : ids (path.methodOwner side) = some owner) :
    let added := model.addMethod { name := name, owner := some owner, parameters := parameters }
    Represents ids (survey.amend path (·.addMethod side name parameters))
      (added.2.attachMethod side id added.1) := by
  intro added
  have hrecord : added.2.methodAt added.1 =
      { name := name, owner := some owner, parameters := parameters } := Model.methodAt_addMethod _
  have hmethod : IsMethod ids added.2 (path.methodOwner side) name added.1 parameters :=
    ⟨Model.size_addMethod _, owner, howner, hrecord⟩
  rw [Model.attachMethod, hrecord]
  refine h.modify hpath rfl rfl (Model.keepsMethods_addMethod _) fun members hdescribes => ?_
  cases side with
  | instanceSide =>
    exact { hdescribes with instanceMethods := hdescribes.instanceMethods.insert hmethod }
  | classSide =>
    exact { hdescribes with classMethods := hdescribes.classMethods.insert hmethod }

/-- A method definition. A method of the class itself first asks for the singleton class. -/
theorem defineMethod (h : Represents ids survey model) {path : ClassPath} {id : ClassId}
    (side : MethodSide) (name : String) (parameters : List Parameter)
    (hpath : ids path = some id) :
    ∃ ids', Represents ids' (survey.addMethod path side name parameters)
      (model.defineMethod side id name parameters).2 ∧ ids.Extends ids' := by
  cases side with
  | instanceSide =>
    exact ⟨ids, h.enterMethod .instanceSide name parameters hpath hpath, .refl ids⟩
  | classSide =>
    obtain ⟨ids', hopened, hextends, hsingleton⟩ := h.companion hpath
    exact ⟨ids', hopened.enterMethod .classSide name parameters (hextends _ _ hpath) hsingleton,
      hextends⟩

end Represents

/-! ## Identities from names -/

namespace Model

/-- The class of a name, by the catalogue, or the companion some levels above it. -/
def locateAbove (model : Model) (name : String) : Nat → Option ClassId
  | 0 => model.catalogue.find? name
  | level + 1 => (model.locateAbove name level).bind fun id => (model.classAt id).companion

/-- The identities that a model gives. -/
def locate (model : Model) : Identities :=
  fun path => model.locateAbove path.name path.level

end Model

/-- Only the identities that the model itself gives can be meant. -/
theorem Represents.eq_locate {ids : Identities} {survey : Survey} {model : Model}
    (h : Represents ids survey model) : ids = model.locate := by
  funext ⟨name, level⟩
  unfold Model.locate
  induction level with
  | zero => exact (h.find name).symm
  | succ level ih =>
    rw [Model.locateAbove, ← ih]
    rcases hbase : ids ⟨name, level⟩ with _ | id
    · exact h.base ⟨name, level⟩ hbase
    · obtain ⟨members, -, hdescribes⟩ := h.describes _ id hbase
      exact hdescribes.companion.symm

end ClassIndex
