import ClassIndex.Proofs.Errands
import ClassIndex.Proofs.Representation
import ClassIndex.Proofs.Requests

/-!
# Models only grow

`model.Extends after` says that nothing in a model was lost or altered: every class keeps its name,
its kind and its place in the hierarchy, and its singleton class, once it has one; lists of names
and mixins have grown at their end only; methods are as they were.  Every request extends the model
(`Request.grows_fulfil`), and so does every run, also one that fails (`grows_of_runInFrame`).
All of this takes tables whose index is right (`Model.Indexed`), which requests keep up.
-/

namespace ClassIndex

/-! ## Records -/

namespace ClassRecord

/-- The second record is the first one with more in it. -/
structure Extends (record after : ClassRecord) : Prop where
  fullname : after.fullname = record.fullname
  kind : after.kind = record.kind
  superclass : after.superclass = record.superclass
  enclosing : after.enclosing = record.enclosing
  attached : after.attached = record.attached
  companion : ∀ id, record.companion = some id → after.companion = some id
  mixins : record.mixins <+: after.mixins
  names : ∀ side, (record.methods side).names <+: (after.methods side).names

theorem Extends.refl (record : ClassRecord) : record.Extends record where
  fullname := rfl
  kind := rfl
  superclass := rfl
  enclosing := rfl
  attached := rfl
  companion _ h := h
  mixins := List.prefix_refl _
  names _ := List.prefix_refl _

theorem Extends.trans {first second third : ClassRecord} (h₁ : first.Extends second)
    (h₂ : second.Extends third) : first.Extends third where
  fullname := h₂.fullname.trans h₁.fullname
  kind := h₂.kind.trans h₁.kind
  superclass := h₂.superclass.trans h₁.superclass
  enclosing := h₂.enclosing.trans h₁.enclosing
  attached := h₂.attached.trans h₁.attached
  companion id h := h₂.companion id (h₁.companion id h)
  mixins := h₁.mixins.trans h₂.mixins
  names side := (h₁.names side).trans (h₂.names side)

/-- Both tables have a right index. -/
def Indexed (record : ClassRecord) : Prop :=
  ∀ side, (record.methods side).Indexed

theorem methods_insertMethod_self (record : ClassRecord) (side : MethodSide) (name : String)
    (method : MethodId) :
    (record.insertMethod side name method).methods side =
      (record.methods side).insert name method := by
  cases side <;> rfl

theorem methods_insertMethod_ne {side other : MethodSide} (h : other ≠ side)
    (record : ClassRecord) (name : String) (method : MethodId) :
    (record.insertMethod side name method).methods other = record.methods other := by
  cases side <;> cases other <;> first | rfl | exact absurd rfl h

theorem Indexed.insertMethod {record : ClassRecord} (h : record.Indexed) (side : MethodSide)
    (name : String) (method : MethodId) : (record.insertMethod side name method).Indexed := by
  intro other
  by_cases hside : other = side
  · subst hside
    rw [methods_insertMethod_self]
    exact (h other).insert
  · rw [methods_insertMethod_ne hside]
    exact h other

/-- One more method adds its name at the end, or replaces a method of that name. -/
theorem Indexed.extends_insertMethod {record : ClassRecord} (h : record.Indexed)
    (side : MethodSide) (name : String) (method : MethodId) :
    record.Extends (record.insertMethod side name method) := by
  have hnames : ∀ other, (record.methods other).names <+:
      ((record.insertMethod side name method).methods other).names := by
    intro other
    by_cases hside : other = side
    · subst hside
      rw [methods_insertMethod_self, (h other).names_insert]
      split
      · exact List.prefix_refl _
      · exact List.prefix_append _ _
    · simp [methods_insertMethod_ne hside]
  cases side <;> exact { Extends.refl record with names := hnames }

/-- The record of a class about which nothing is known but what its first mention says. -/
structure IsHeading (fullname : String) (record : ClassRecord) : Prop where
  fullname : record.fullname = fullname
  companion : record.companion = none
  mixins : record.mixins = []
  methods : ∀ side, record.methods side = {}

theorem IsHeading.indexed {fullname : String} {record : ClassRecord}
    (h : record.IsHeading fullname) : record.Indexed := by
  intro side
  rw [h.methods side]
  exact MethodTable.indexed_empty

theorem isHeading_placeholder (fullname : String) : (placeholder fullname).IsHeading fullname :=
  ⟨rfl, rfl, rfl, fun side => by cases side <;> rfl⟩

theorem isHeading_recordFor (flags : ClassFlags) (superclass enclosing : Option ClassId)
    (fullname : String) :
    (Declarations.recordFor flags superclass enclosing fullname).IsHeading fullname := by
  unfold Declarations.recordFor
  split <;> exact ⟨rfl, rfl, rfl, fun side => by cases side <;> rfl⟩

end ClassRecord

/-! ## Models -/

namespace Model

/-- The second model is the first one with more in it. -/
structure Extends (model after : Model) : Prop where
  size_le : model.classes.size ≤ after.classes.size
  order : model.catalogue.order <+: after.catalogue.order
  find : ∀ name id, model.catalogue.find? name = some id → after.catalogue.find? name = some id
  methods : model.KeepsMethods after
  records : ∀ id : ClassId, id.index < model.classes.size →
    (model.classAt id).Extends (after.classAt id)

theorem Extends.refl (model : Model) : model.Extends model where
  size_le := Nat.le_refl _
  order := List.prefix_refl _
  find _ _ h := h
  methods := keepsMethods_of_eq rfl
  records _ _ := .refl _

theorem Extends.trans {first second third : Model} (h₁ : first.Extends second)
    (h₂ : second.Extends third) : first.Extends third where
  size_le := Nat.le_trans h₁.size_le h₂.size_le
  order := h₁.order.trans h₂.order
  find name id h := h₂.find name id (h₁.find name id h)
  methods := by
    intro method hmethod
    obtain ⟨hbound, hrecord⟩ := h₁.methods method hmethod
    obtain ⟨hbound', hrecord'⟩ := h₂.methods method hbound
    exact ⟨hbound', hrecord'.trans hrecord⟩
  records id hid :=
    (h₁.records id hid).trans (h₂.records id (Nat.lt_of_lt_of_le hid h₁.size_le))

/-- Every table of the model has a right index. -/
def Indexed (model : Model) : Prop :=
  ∀ id, (model.classAt id).Indexed

theorem classAt_of_size_le {model : Model} {id : ClassId} (h : model.classes.size ≤ id.index) :
    model.classAt id = default := by
  unfold classAt
  rw [Array.getElem?_eq_none h, Option.getD_none]

theorem indexed_default : (default : ClassRecord).Indexed := by
  intro side
  cases side <;> exact MethodTable.indexed_empty

/-- A model whose records are the old ones, but for one that is added. -/
theorem Indexed.of_push {model after : Model} {record : ClassRecord} (h : model.Indexed)
    (hclasses : after.classes = model.classes.push record) (hrecord : record.Indexed) :
    after.Indexed := by
  intro id
  rcases Nat.lt_trichotomy id.index model.classes.size with hlt | heq | hgt
  · rw [classAt_of_push hclasses hlt]
    exact h id
  · have hid : id = ⟨model.classes.size⟩ := by
      rw [← heq]
    rw [hid, classAt_of_push_size hclasses]
    exact hrecord
  · rw [classAt_of_size_le]
    · exact indexed_default
    · rw [hclasses, Array.size_push]
      omega

theorem Indexed.modifyClass {model : Model} (h : model.Indexed) {id : ClassId}
    {change : ClassRecord → ClassRecord}
    (hchange : (model.classAt id).Indexed → (change (model.classAt id)).Indexed) :
    (model.modifyClass id change).Indexed := by
  intro other
  by_cases heq : other = id
  · subst heq
    by_cases hbound : other.index < model.classes.size
    · rw [classAt_modifyClass_self hbound]
      exact hchange (h other)
    · rw [classAt_of_size_le]
      · exact indexed_default
      · rw [size_modifyClass]
        omega
  · rw [classAt_modifyClass_ne heq]
    exact h other

/-- A class that is added alters none of the others. -/
theorem extends_of_push {model after : Model} {record : ClassRecord}
    (hclasses : after.classes = model.classes.push record)
    (hmethods : after.methods = model.methods)
    (horder : model.catalogue.order <+: after.catalogue.order)
    (hfind : ∀ name id, model.catalogue.find? name = some id →
      after.catalogue.find? name = some id) : model.Extends after where
  size_le := by
    rw [hclasses, Array.size_push]
    omega
  order := horder
  find := hfind
  methods := keepsMethods_of_eq hmethods
  records id hid := by
    rw [classAt_of_push hclasses hid]
    exact .refl _

/-- A record that is extended alters none of the others. -/
theorem extends_modifyClass {model : Model} {id : ClassId} {change : ClassRecord → ClassRecord}
    (h : (model.classAt id).Extends (change (model.classAt id))) :
    model.Extends (model.modifyClass id change) where
  size_le := Nat.le_of_eq (size_modifyClass change).symm
  order := List.prefix_refl _
  find _ _ hfind := hfind
  methods := keepsMethods_of_eq rfl
  records other hother := by
    by_cases heq : other = id
    · subst heq
      rw [classAt_modifyClass_self hother]
      exact h
    · rw [classAt_modifyClass_ne heq]
      exact .refl _

/-- Tables stay indexed, and nothing is lost. -/
def Grows (model after : Model) : Prop :=
  model.Indexed → after.Indexed ∧ model.Extends after

theorem Grows.refl (model : Model) : model.Grows model :=
  fun h => ⟨h, .refl model⟩

theorem Grows.trans {first second third : Model} (h₁ : first.Grows second)
    (h₂ : second.Grows third) : first.Grows third := by
  intro hindexed
  obtain ⟨hsecond, hextends⟩ := h₁ hindexed
  obtain ⟨hthird, hextends'⟩ := h₂ hsecond
  exact ⟨hthird, hextends.trans hextends'⟩

theorem grows_define {name : String} {record : ClassRecord} (model : Model)
    (hrecord : record.Indexed) : model.Grows (model.define name record).2 := by
  unfold define
  split
  · exact .refl model
  · rename_i hnone
    intro hindexed
    refine ⟨hindexed.of_push rfl hrecord, extends_of_push rfl rfl (List.prefix_append _ _) ?_⟩
    intro other id hfind
    show (model.catalogue.register name _).find? other = some id
    rw [Catalogue.find?_register, if_neg]
    · exact hfind
    · rintro rfl
      rw [hnone] at hfind
      cases hfind

theorem indexed_companionOf (id : ClassId) (record : ClassRecord) :
    (ClassRecord.companionOf id record).Indexed := by
  intro side
  cases side <;> exact MethodTable.indexed_empty

theorem grows_companion (model : Model) (id : ClassId) : model.Grows (model.companion id).2 := by
  unfold companion
  split
  · exact .refl model
  · rename_i hnone
    intro hindexed
    let between := (model.addClass (.companionOf id (model.classAt id))).2
    have hbetween : between.Indexed := hindexed.of_push rfl (indexed_companionOf _ _)
    have hextends : model.Extends between :=
      extends_of_push rfl rfl (List.prefix_refl _) fun _ _ h => h
    -- Whichever record is changed, it has no companion so far: it is an old one or the new one.
    have hcompanion : (between.classAt id).companion = none := by
      rcases Nat.lt_trichotomy id.index model.classes.size with hlt | heq | hgt
      · rw [classAt_of_push rfl hlt]
        exact hnone
      · have hid : id = ⟨model.classes.size⟩ := by
          rw [← heq]
        rw [hid, classAt_of_push_size rfl]
        rfl
      · rw [classAt_of_size_le]
        · rfl
        · show (model.classes.push _).size ≤ id.index
          rw [Array.size_push]
          omega
    refine ⟨hbetween.modifyClass ?_, hextends.trans (extends_modifyClass ?_)⟩
    · intro hrecord side
      cases side
      · exact hrecord .instanceSide
      · exact hrecord .classSide
    · refine { ClassRecord.Extends.refl _ with companion := ?_, names := ?_ }
      · intro other hother
        rw [hcompanion] at hother
        cases hother
      · intro side
        cases side <;> exact List.prefix_refl _

theorem grows_methodOwner (model : Model) (side : MethodSide) (id : ClassId) :
    model.Grows (model.methodOwner side id).2 := by
  cases side with
  | instanceSide => exact .refl model
  | classSide => exact model.grows_companion id

theorem grows_addMethod (model : Model) (record : MethodRecord) :
    model.Grows (model.addMethod record).2 :=
  fun hindexed => ⟨hindexed, ⟨Nat.le_refl _, List.prefix_refl _, fun _ _ h => h,
    keepsMethods_addMethod record, fun _ _ => .refl _⟩⟩

theorem grows_attachMethod (model : Model) (side : MethodSide) (id : ClassId)
    (method : MethodId) : model.Grows (model.attachMethod side id method) :=
  fun hindexed => ⟨hindexed.modifyClass fun hrecord => hrecord.insertMethod _ _ _,
    extends_modifyClass ((hindexed id).extends_insertMethod _ _ _)⟩

theorem grows_mixIn (model : Model) (kind : MixinKind) (id source : ClassId) :
    model.Grows (model.mixIn kind id source) := by
  intro hindexed
  refine ⟨hindexed.modifyClass ?_, extends_modifyClass ?_⟩
  · intro hrecord side
    cases side
    · exact hrecord .instanceSide
    · exact hrecord .classSide
  · refine { ClassRecord.Extends.refl _ with mixins := List.prefix_append _ _, names := ?_ }
    intro side
    cases side <;> exact List.prefix_refl _

end Model

/-! ## Requests and runs -/

namespace Request

/-- A class that is asked for gets a record with nothing in it. -/
def IsProper : Request → Prop
  | define _ _ record => ∀ fullname, (record fullname).IsHeading fullname
  | _ => True

theorem grows_fulfil {request : Request} (h : request.IsProper) (model : Model) :
    model.Grows (request.fulfil model).2 := by
  cases request with
  | nothing => exact .refl model
  | define enclosing name record => exact model.grows_define (h _).indexed
  | companion id => exact model.grows_companion id
  | method side id name body =>
    exact ((model.grows_methodOwner side id).trans (Model.grows_addMethod _ _)).trans
      (Model.grows_attachMethod _ side id _)
  | find side id name => exact .refl model
  | mixIn kind id source => exact model.grows_mixIn kind id source

end Request

theorem DeclarationKind.isProper_of_request {kind : DeclarationKind} {args : Arguments}
    {request : Request} (h : kind.request args = .ok request) : request.IsProper := by
  cases kind with
  | defineClass =>
    obtain ⟨name, -, h⟩ := except_bind_eq_ok h
    obtain ⟨superclass, -, h⟩ := except_bind_eq_ok h
    obtain ⟨flags, -, h⟩ := except_bind_eq_ok h
    dsimp only at h
    split at h
    · cases h
      cases (args.get 3).class? <;> trivial
    · cases h
      exact fun fullname => ClassRecord.isHeading_recordFor _ _ _ fullname
  | getConstant =>
    obtain ⟨name, -, h⟩ := except_bind_eq_ok h
    cases h
    exact ClassRecord.isHeading_placeholder
  | defineMethod side =>
    simp only [DeclarationKind.request] at h
    split at h
    · cases h
      trivial
    · obtain ⟨name, -, h⟩ := except_bind_eq_ok h
      cases h
      trivial
  | findMethod side =>
    simp only [DeclarationKind.request] at h
    split at h
    · cases h
      trivial
    · obtain ⟨name, -, h⟩ := except_bind_eq_ok h
      cases h
      trivial
  | mixIn kind =>
    simp only [DeclarationKind.request] at h
    split at h <;> cases h <;> trivial

namespace Declarations

/-- A relation between models that holds across every request holds across whole runs. -/
theorem moves_of_requests {R : Model → Model → Prop} (hrefl : ∀ model, R model model)
    (htrans : ∀ {first second third : Model}, R first second → R second third → R first third)
    (hfulfil : ∀ {kind : DeclarationKind} {args : Arguments} {request : Request} (model : Model),
      kind.request args = .ok request → R model (request.fulfil model).2) :
    processors.Moves fun host after => R host.state after.state where
  refl host := hrefl host.state
  trans h₁ h₂ := htrans h₁ h₂
  report host _ := hrefl host.state
  dispatch := by
    intro opcode qualifier values host outcome after hrun
    obtain ⟨check, hcheck, hresults⟩ := run_dispatch opcode qualifier
    have hresult := hresults values host
    rw [ActionM.Results, hrun] at hresult
    rcases hrequest : check values with error | request
    · rw [hrequest] at hresult
      rw [show after.state = _ from congrArg Prod.snd hresult]
      exact hrefl host.state
    · rw [hrequest] at hresult
      rw [show after.state = _ from congrArg Prod.snd hresult]
      rcases hcheck with hnothing | ⟨kind, hkind⟩
      · rw [hnothing] at hrequest
        cases hrequest
        exact hrefl host.state
      · exact hfulfil host.state ((hkind values).symm.trans hrequest)

/-- Whatever comes of a declaration, the model has only grown by it. -/
theorem moves_grows : processors.Moves fun host after => host.state.Grows after.state :=
  moves_of_requests .refl .trans fun model hrequest =>
    Request.grows_fulfil (DeclarationKind.isProper_of_request hrequest) model

/-- A model only grows by a run, also by one that fails. -/
theorem grows_of_runInFrame {levels : Nat} {scope : Value} {body : Sequence}
    {machine after : Machine Model} {result : Except RunError Value}
    (h : (Machine.runInFrame processors levels scope body).Ends machine result after) :
    machine.host.state.Grows after.host.state :=
  moves_grows.of_runInFrame levels _ _ _ _ _ h

end Declarations

end ClassIndex
