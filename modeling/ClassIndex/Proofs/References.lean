import ClassIndex.Proofs.Ownership
import ClassIndex.Proofs.Reports
import ClassIndex.Proofs.Teams

/-!
# No reference dangles

Classes and methods name classes in many places, and indexers hold classes and methods on their
stacks.  `Model.Sound` is the invariant that every one of them is in the model; superclasses,
enclosing classes and attached classes are even older than the class that names them.  Requests keep
it up (`Sound.fulfil`), since what they add names the classes that they are handed and no others.

In a sound model every class stands at a path, so it is registered or belongs to the tower of a
class that is (`Coherent.anchored`).  `anchored_of_reached` says so of all that indexers and their
model mention, at any time.
-/

namespace ClassIndex

/-! ## Records -/

namespace ClassRecord

/-- The class is the superclass, the enclosing class or the attached class of the record. -/
def LinksTo (record : ClassRecord) (other : ClassId) : Prop :=
  record.superclass = some other ∨ record.enclosing = some other ∨ record.attached = some other

variable {record after : ClassRecord} {base other : ClassId}

theorem not_linksTo_default : ¬ (default : ClassRecord).LinksTo other := by
  rintro (h | h | h) <;> cases h

theorem not_linksTo_placeholder {fullname : String} : ¬ (placeholder fullname).LinksTo other := by
  rintro (h | h | h) <;> cases h

theorem Extends.linksTo_iff (h : record.Extends after) :
    after.LinksTo other ↔ record.LinksTo other := by
  unfold LinksTo
  rw [h.superclass, h.enclosing, h.attached]

theorem IsCompanionOf.eq_of_linksTo (h : record.IsCompanionOf base)
    (hlinks : record.LinksTo other) : other = base := by
  unfold LinksTo at hlinks
  rw [h.superclass, h.enclosing, h.attached] at hlinks
  rcases hlinks with hlinks | hlinks | hlinks <;> cases hlinks
  rfl

theorem of_linksTo_recordFor {flags : ClassFlags} {superclass enclosing : Option ClassId}
    {fullname : String}
    (h : (Declarations.recordFor flags superclass enclosing fullname).LinksTo other) :
    superclass = some other ∨ enclosing = some other := by
  unfold Declarations.recordFor at h
  split at h
  · rcases h with h | h | h
    · cases h
    · exact Or.inr h
    · cases h
  · rcases h with h | h | h
    · exact Or.inl h
    · exact Or.inr h
    · cases h

end ClassRecord

/-- The method has an owner, and the classes that it names are in the model. -/
structure MethodRecord.Within (model : Model) (record : MethodRecord) : Prop where
  owner : ∃ owner, record.owner = some owner ∧ owner.index < model.classes.size
  returns : ∀ id ∈ record.returns, id.index < model.classes.size

theorem MethodRecord.Within.mono {model after : Model} {record : MethodRecord}
    (h : record.Within model) (hsize : model.classes.size ≤ after.classes.size) :
    record.Within after := by
  obtain ⟨owner, howner, hbound⟩ := h.owner
  exact ⟨⟨owner, howner, Nat.lt_of_lt_of_le hbound hsize⟩,
    fun id hid => Nat.lt_of_lt_of_le (h.returns id hid) hsize⟩

/-! ## What requests add -/

namespace Request

variable {model : Model} {request : Request}

theorem eq_method_of_new {method : MethodId} (hnew : model.methods.size ≤ method.index)
    (hbound : method.index < (request.fulfil model).2.methods.size) :
    ∃ side id name body, request = .method side id name body ∧
      method = ⟨model.methods.size⟩ := by
  have hold (hsame : (request.fulfil model).2.methods = model.methods) : False := by
    rw [hsame] at hbound
    omega
  cases request with
  | nothing | find _ _ _ | mixIn _ _ _ => exact (hold rfl).elim
  | define enclosing name record =>
    refine (hold ?_).elim
    show (model.define _ _).2.methods = model.methods
    unfold Model.define
    split <;> rfl
  | companion id => exact (hold (model.methods_companion id)).elim
  | method side id name body =>
    rw [size_fulfil_method] at hbound
    exact ⟨side, id, name, body, rfl, congrArg MethodId.mk (by omega)⟩

theorem isCompanionOf_of_new {base id : ClassId} (hbase : base.index < model.classes.size)
    (hnew : model.classes.size ≤ id.index)
    (hbound : id.index < (model.companion base).2.classes.size) :
    ((model.companion base).2.classAt id).IsCompanionOf base := by
  rcases hcompanion : (model.classAt base).companion with _ | other
  · rw [Model.companion_of_none hcompanion] at hbound ⊢
    dsimp only at hbound ⊢
    have hsize : (model.attaching base).classes.size = model.classes.size + 1 :=
      (Model.size_modifyClass _).trans (Array.size_push ..)
    have hid : id = ⟨model.classes.size⟩ := congrArg ClassId.mk (by omega)
    rw [hid, Model.classAt_attaching_size hbase]
    exact ClassRecord.isCompanionOf_companionOf _ _
  · rw [Model.companion_of_some hcompanion] at hbound
    exact absurd hbound (Nat.not_lt.2 hnew)

/-- A class that a request adds has the record of the request, or it is the singleton class of a
class that the model has. -/
theorem classAt_of_new {deed : Deed} {id : ClassId} (hmodel : model.Coherent)
    (hmeans : request.Means model deed) (hnew : model.classes.size ≤ id.index)
    (hbound : id.index < (request.fulfil model).2.classes.size) :
    (∃ enclosing name record, request = .define enclosing name record ∧
        (request.fulfil model).2.classAt id = record (model.qualify enclosing name)) ∨
      ∃ base : ClassId, base.index < model.classes.size ∧
        ((request.fulfil model).2.classAt id).IsCompanionOf base := by
  have hold (hsame : (request.fulfil model).2.classes.size = model.classes.size) : False := by
    omega
  cases hmeans with
  | nothing | find _ _ _ => exact (hold rfl).elim
  | mixIn _ _ _ => exact (hold (Model.size_modifyClass _)).elim
  | @define enclosing _ name record _ _ =>
    refine Or.inl ⟨enclosing, name, record, rfl, ?_⟩
    replace hbound : id.index < (model.define (model.qualify enclosing name)
      (record (model.qualify enclosing name))).2.classes.size := hbound
    show (model.define (model.qualify enclosing name) _).2.classAt id = _
    rcases hfind : model.catalogue.find? (model.qualify enclosing name) with _ | known
    · rw [Model.define_of_none hfind] at hbound ⊢
      dsimp only at hbound ⊢
      have hsize : (model.registering (model.qualify enclosing name)
          (record (model.qualify enclosing name))).classes.size = model.classes.size + 1 :=
        Array.size_push ..
      have hid : id = ⟨model.classes.size⟩ := congrArg ClassId.mk (by omega)
      rw [hid, Model.classAt_registering_size]
    · rw [Model.define_of_some hfind] at hbound
      exact absurd hbound (Nat.not_lt.2 hnew)
  | companion hpath =>
    have hbase := hmodel.bound _ _ hpath
    exact Or.inr ⟨_, hbase, isCompanionOf_of_new hbase hnew hbound⟩
  | @method base _ side name body hpath =>
    have hbase := hmodel.bound _ _ hpath
    cases side with
    | instanceSide => exact (hold (Model.size_modifyClass _)).elim
    | classSide =>
      have hne : id ≠ base := by
        rintro rfl
        omega
      have hsize : ((Request.method .classSide base name body).fulfil model).2.classes.size =
          (model.companion base).2.classes.size := Model.size_modifyClass _
      have hsame : ((Request.method .classSide base name body).fulfil model).2.classAt id =
          (model.companion base).2.classAt id := Model.classAt_modifyClass_ne hne
      rw [hsame]
      exact Or.inr ⟨base, hbase, isCompanionOf_of_new hbase hnew (hsize ▸ hbound)⟩

end Request

/-! ## Sound models -/

namespace Model

/-- Whatever a record names is in the model. -/
structure Sound (model : Model) : Prop where
  owned : model.Owned
  /-- Superclasses, enclosing classes and attached classes are older than the class itself. -/
  descending : ∀ id other, (model.classAt id).LinksTo other → other.index < id.index
  methods : ∀ method : MethodId, method.index < model.methods.size →
    (model.methodAt method).Within model

theorem sound_empty : ({} : Model).Sound where
  owned := owned_empty
  descending _ _ hlinks := absurd hlinks ClassRecord.not_linksTo_default
  methods _ hmethod := absurd hmethod (Nat.not_lt_zero _)

theorem index_lt_of_linksTo {model : Model} {id other : ClassId}
    (h : (model.classAt id).LinksTo other) : id.index < model.classes.size := by
  by_contra hbound
  rw [classAt_of_size_le (by omega)] at h
  exact ClassRecord.not_linksTo_default h

/-- A method takes its return classes from the method that it is an alias of, if from anywhere. -/
theorem Sound.returns_methodFrom {model : Model} (h : model.Sound) {name : String}
    {owner : ClassId} {body : Value} :
    ∀ id ∈ (Declarations.methodFrom model name owner body).returns,
      id.index < model.classes.size := by
  intro id hid
  cases body with
  | methodRef method =>
    replace hid : id ∈ (model.methodAt method).returns := MethodRecord.mem_returns_of_aliased hid
    by_cases hmethod : method.index < model.methods.size
    · exact (h.methods method hmethod).returns id hid
    · rw [methodAt, Array.getElem?_eq_none (by omega)] at hid
      cases hid
  | nil | literal _ | classRef _ | sequence _ => cases hid

end Model

section Fulfil

variable {model : Model} {kind : DeclarationKind} {args : Arguments} {request : Request}

/-- The classes that a new class names are among the arguments, or are the one that it is attached
to. -/
theorem DeclarationKind.index_lt_of_new {id other : ClassId} (hmodel : model.Coherent)
    (hrequest : kind.request args = .ok request)
    (hargs : ∀ index, (args.get index).InModel model) (hnew : model.classes.size ≤ id.index)
    (hlinks : ((request.fulfil model).2.classAt id).LinksTo other) :
    other.index < model.classes.size := by
  obtain ⟨deed, hmeans⟩ := exists_means_of_request hrequest hmodel hargs
  rcases Request.classAt_of_new hmodel hmeans hnew (Model.index_lt_of_linksTo hlinks) with
    ⟨enclosing, name, record, rfl, hrecord⟩ | ⟨base, hbase, hcompanion⟩
  · rw [hrecord] at hlinks
    rcases (eq_of_define hrequest).2 with
      ⟨-, rfl⟩ | ⟨-, henclosing, superclass, flags, hsuperclass, -, -, rfl⟩
    · exact absurd hlinks ClassRecord.not_linksTo_placeholder
    · rcases ClassRecord.of_linksTo_recordFor hlinks with rfl | rfl
      · exact hargs 2 other (Arguments.class?_of_classOrNil hsuperclass)
      · exact hargs 3 other henclosing.symm
  · rw [hcompanion.eq_of_linksTo hlinks]
    exact hbase

/-- A method that is new has the class for its owner that the request is about, or the singleton
class of that. -/
theorem Model.Sound.within_of_new (h : model.Sound) {side : MethodSide} {id : ClassId}
    {name : String} {body : Value} (hid : id.index < model.classes.size)
    (hafter : ((Request.method side id name body).fulfil model).2.Owned) :
    (((Request.method side id name body).fulfil model).2.methodAt ⟨model.methods.size⟩).Within
      ((Request.method side id name body).fulfil model).2 := by
  have hproper : (Request.method side id name body).IsProper := trivial
  have hextends := (Request.grows_fulfil hproper model h.owned.tabled.indexed).2
  have howner : ((Request.method side id name body).fulfil model).2.ownerOf side id =
      some (model.methodOwner side id).1 := ownerOf_fulfil_method h.owned.tabled.indexed hid
  rw [Request.methodAt_fulfil_method]
  refine ⟨⟨_, owner_methodFrom _ _ _ _, ?_⟩, fun other hother => ?_⟩
  · cases side with
    | instanceSide => exact Nat.lt_of_lt_of_le hid hextends.size_le
    | classSide => exact (hafter.paired id _ howner).1
  · have hreturns : other ∈ (Declarations.methodFrom model name
        (model.methodOwner side id).1 body).returns := by
      cases body with
      | methodRef method =>
        rwa [Declarations.methodFrom, methodAt, model.methods_methodOwner side id] at hother
      | nil | literal _ | classRef _ | sequence _ => cases hother
    exact Nat.lt_of_lt_of_le (h.returns_methodFrom other hreturns) hextends.size_le

/-- A declaration about classes of the model leaves no reference dangling. -/
theorem Model.Sound.fulfil (h : model.Sound) (hrequest : kind.request args = .ok request)
    (hargs : ∀ index, (args.get index).InModel model) : (request.fulfil model).2.Sound := by
  have hcoherent := h.owned.coherent
  have hproper := DeclarationKind.isProper_of_request hrequest
  have hextends := (Request.grows_fulfil hproper model hcoherent.indexed).2
  obtain ⟨deed, hmeans⟩ := DeclarationKind.exists_means_of_request hrequest hcoherent hargs
  have howned := h.owned.fulfil hmeans
  refine ⟨howned, fun id other hlinks => ?_, fun method hmethod => ?_⟩
  · by_cases hold : id.index < model.classes.size
    · exact h.descending id other ((hextends.records id hold).linksTo_iff.1 hlinks)
    · have hnew : model.classes.size ≤ id.index := by omega
      exact Nat.lt_of_lt_of_le
        (DeclarationKind.index_lt_of_new hcoherent hrequest hargs hnew hlinks) hnew
  · by_cases hold : method.index < model.methods.size
    · obtain ⟨-, hrecord⟩ := hextends.methods method hold
      rw [hrecord]
      exact (h.methods method hold).mono hextends.size_le
    · obtain ⟨side, id, name, body, rfl, rfl⟩ :=
        Request.eq_method_of_new (show model.methods.size ≤ method.index by omega) hmethod
      cases hmeans with
      | method _ _ _ hpath => exact h.within_of_new (hcoherent.bound _ _ hpath) howned

end Fulfil

/-- If the value is a class or a method, the model has it. -/
structure Value.Within (model : Model) (value : Value) : Prop where
  inModel : value.InModel model
  method : ∀ method, value.method? = some method → method.index < model.methods.size

theorem Request.method_lt_of_answer {model : Model} (h : model.Tabled) {request : Request}
    {method : MethodId} (hmethod : (request.fulfil model).1.method? = some method) :
    method.index < (request.fulfil model).2.methods.size := by
  cases request with
  | nothing | define _ _ _ | companion _ | mixIn _ _ _ => cases hmethod
  | method side id name body =>
    cases hmethod
    rw [size_fulfil_method]
    show (model.methodOwner side id).2.methods.size < _
    rw [model.methods_methodOwner side id]
    exact Nat.lt_succ_self _
  | find side id name =>
    replace hmethod : (Value.ofMethod? (model.findMethod? side id name)).method? = some method :=
      hmethod
    rcases hfind : model.findMethod? side id name with _ | found
    · rw [hfind] at hmethod
      cases hmethod
    · rw [hfind] at hmethod
      cases hmethod
      exact (h.stored (h.indexed.findMethod?_eq_some_iff.1 hfind)).1

theorem Declarations.keeps_sound : Keeps Model.Sound Value.Within where
  plain hplain :=
    ⟨keeps_owned.plain hplain, fun method hmethod => by
      rw [hplain.2] at hmethod
      cases hmethod⟩
  good hrequest hsound hargs := hsound.fulfil hrequest fun index => (hargs index).inModel
  answer hrequest hsound hargs :=
    ⟨keeps_owned.answer hrequest hsound.owned fun index => (hargs index).inModel,
      fun _ hmethod => Request.method_lt_of_answer hsound.owned.tabled hmethod⟩
  mono hrequest hsound hargs _ hvalue := by
    have hproper := DeclarationKind.isProper_of_request hrequest
    have hextends := (Request.grows_fulfil hproper _ hsound.owned.tabled.indexed).2
    refine ⟨keeps_owned.mono hrequest hsound.owned (fun index => (hargs index).inModel)
      hvalue.inModel, fun method hmethod => ?_⟩
    exact (hextends.methods method (hvalue.method method hmethod)).1

/-- The model of a team is sound at any time, and its indexers hold classes and methods of it. -/
theorem Team.Reached.sound {team : Team} (h : team.Reached) :
    team.Upholds (fun host => host.state.Sound) Value.Within :=
  h.upholds Declarations.keeps_sound.preserves Model.sound_empty

/-! ## Anchored classes -/

namespace Model

/-- The class is registered under its own name, or it belongs to the tower of a class that is. -/
def Anchored (model : Model) (id : ClassId) : Prop :=
  model.isRegistered id ∨ ∃ base levels, model.isRegistered base ∧ id ∈ model.tower levels base

theorem mem_tower_of_companion {model : Model} {base below id : ClassId} {levels : Nat}
    (hbelow : below ∈ model.tower levels base)
    (hcompanion : (model.classAt below).companion = some id) :
    id ∈ model.tower (levels + 1) base := by
  induction levels generalizing base with
  | zero => cases hbelow
  | succ levels ih =>
    rw [tower] at hbelow ⊢
    split at hbelow
    · rcases List.mem_cons.1 hbelow with rfl | hhigher
      · refine List.mem_cons_of_mem _ ?_
        rw [tower, hcompanion]
        exact List.mem_cons_self
      · exact List.mem_cons_of_mem _ (ih hhigher)
    · cases hbelow

theorem Anchored.companion {model : Model} {below id : ClassId} (h : model.Anchored below)
    (hcompanion : (model.classAt below).companion = some id) : model.Anchored id := by
  rcases h with hregistered | ⟨base, levels, hregistered, htower⟩
  · refine Or.inr ⟨below, 1, hregistered, ?_⟩
    rw [tower, hcompanion]
    exact List.mem_cons_self
  · exact Or.inr ⟨base, levels + 1, hregistered, mem_tower_of_companion htower hcompanion⟩

/-- Every class of a coherent model is anchored: its path starts from a name. -/
theorem Coherent.anchored {model : Model} (h : model.Coherent) {id : ClassId}
    (hid : id.index < model.classes.size) : model.Anchored id := by
  obtain ⟨path, hpath⟩ := h.covers id hid
  clear hid
  induction path using ClassPath.tower_induction generalizing id with
  | named name =>
    have hfullname : model.fullname id = name := h.fullname _ _ hpath
    refine Or.inl (decide_eq_true ?_)
    rw [hfullname]
    exact hpath
  | singleton path ih =>
    rw [locate_singleton] at hpath
    obtain ⟨below, hbelow, hcompanion⟩ := Option.bind_eq_some_iff.1 hpath
    exact (ih hbelow).companion hcompanion

/-- A record of the model mentions a class. -/
inductive Mentions (model : Model) : ClassId → Prop
  | superclass {id other : ClassId} (h : (model.classAt id).superclass = some other) :
      Mentions model other
  | enclosing {id other : ClassId} (h : (model.classAt id).enclosing = some other) :
      Mentions model other
  | attached {id other : ClassId} (h : (model.classAt id).attached = some other) :
      Mentions model other
  | companion {id other : ClassId} (h : (model.classAt id).companion = some other) :
      Mentions model other
  | mixin {id : ClassId} {mixin : Mixin} (h : mixin ∈ (model.classAt id).mixins) :
      Mentions model mixin.source
  | owner {method : MethodId} {other : ClassId} (h : (model.methodAt method).owner = some other) :
      Mentions model other
  | returned {method : MethodId} {other : ClassId} (h : other ∈ (model.methodAt method).returns) :
      Mentions model other

theorem Sound.index_lt_of_linksTo {model : Model} (h : model.Sound) {id other : ClassId}
    (hlinks : (model.classAt id).LinksTo other) : other.index < model.classes.size :=
  Nat.lt_trans (h.descending id other hlinks) (Model.index_lt_of_linksTo hlinks)

theorem Sound.methodAt_cases {model : Model} (h : model.Sound) (method : MethodId) :
    (model.methodAt method).Within model ∨ model.methodAt method = default := by
  by_cases hmethod : method.index < model.methods.size
  · exact Or.inl (h.methods method hmethod)
  · right
    rw [methodAt, Array.getElem?_eq_none (by omega), Option.getD_none]

theorem Sound.index_lt_of_mentions {model : Model} (h : model.Sound) {other : ClassId}
    (hmentions : model.Mentions other) : other.index < model.classes.size := by
  cases hmentions with
  | superclass hother => exact h.index_lt_of_linksTo (Or.inl hother)
  | enclosing hother => exact h.index_lt_of_linksTo (Or.inr (Or.inl hother))
  | attached hother => exact h.index_lt_of_linksTo (Or.inr (Or.inr hother))
  | companion hother => exact (h.owned.paired _ _ hother).1
  | mixin hmixin => exact h.owned.coherent.sources _ _ hmixin
  | @owner method _ howner =>
    rcases h.methodAt_cases method with hwithin | hdefault
    · obtain ⟨owner, howner', hbound⟩ := hwithin.owner
      rw [howner] at howner'
      cases howner'
      exact hbound
    · rw [hdefault] at howner
      cases howner
  | @returned method _ hother =>
    rcases h.methodAt_cases method with hwithin | hdefault
    · exact hwithin.returns other hother
    · rw [hdefault] at hother
      cases hother

/-- A class is anchored, and a method has an owner that is. -/
structure Vouches (model : Model) (value : Value) : Prop where
  anchored : ∀ id, value.class? = some id → model.Anchored id
  owner : ∀ method, value.method? = some method →
    ∃ owner, (model.methodAt method).owner = some owner ∧ model.Anchored owner

theorem Sound.vouches {model : Model} (h : model.Sound) {value : Value}
    (hvalue : value.Within model) : model.Vouches value where
  anchored id hid := h.owned.coherent.anchored (hvalue.inModel id hid)
  owner method hmethod := by
    obtain ⟨owner, howner, hbound⟩ := (h.methods method (hvalue.method method hmethod)).owner
    exact ⟨owner, howner, h.owned.coherent.anchored hbound⟩

end Model

namespace Indexing

/-- At any time, every class that the model mentions is registered or belongs to the tower of a
registered class, and so is every class that an indexer has among its values or its scopes.  The
methods among them have an owner, for which the same holds. -/
theorem anchored_of_reached {team : Team} (h : team.Reached) :
    (∀ id, team.host.state.Mentions id → team.host.state.Anchored id) ∧
      ∀ memory ∈ team.memories, memory.All team.host.state.Vouches := by
  obtain ⟨hsound, hmemories⟩ := h.sound
  refine ⟨fun id hid => ?_, fun memory hmemory => ?_⟩
  · exact hsound.owned.coherent.anchored (hsound.index_lt_of_mentions hid)
  · exact (hmemories memory hmemory).mono fun value hvalue => hsound.vouches hvalue

/-- Defines a class below one that is not known yet, with a method of the class itself, and leaves
that method behind. -/
def lookingUp : Sequence :=
  let tool := (Sequence.start "<class:Tool>" .classBody)
    |>.putSelf |>.putSymbol "make" |>.putBody Demo.create
    |>.call "core#define_singleton_method" 3
  (Demo.appendClass (.start "<main>" .top) "Tool" (some "Base") tool .withSuperclass).pop
    |>.putNil |>.getConstant "Tool" |>.putSymbol "make" |>.call "method" 1 |>.leave

/-- The method on the stack belongs to a singleton class, and the class that was not known is
registered. -/
theorem anchored_of_reached_lookingUp :
    ∃ result after, (index 4 lookingUp).Ends (start .nil { state := {} }) result after ∧
      (after.host.state.classAt ⟨1⟩).superclass = some ⟨0⟩ ∧ after.host.state.Anchored ⟨0⟩ ∧
      after.memory.values.map Value.method? = [some ⟨0⟩] ∧
      ∃ owner, (after.host.state.methodAt ⟨0⟩).owner = some owner ∧
        after.host.state.Anchored owner := by
  have hcheck : ((index 4 lookingUp).run.run (start .nil { state := {} })).any (fun ending =>
      (ending.2.host.state.classAt ⟨1⟩).superclass == some ⟨0⟩ &&
        ending.2.memory.values.map Value.method? == [some ⟨0⟩]) = true := by
    decide +kernel
  obtain ⟨result, after, hends, hrest⟩ := RunM.exists_ends_of_any hcheck
  simp only [Bool.and_eq_true, beq_iff_eq] at hrest
  obtain ⟨hsuperclass, hvalues⟩ := hrest
  obtain ⟨hmodel, hmemories⟩ := anchored_of_reached (Team.Reached.start.index_new hends)
  have hlisted : some ⟨0⟩ ∈ after.memory.values.map Value.method? := by
    rw [hvalues]
    exact List.mem_cons_self
  obtain ⟨value, hvalue, hmethod⟩ := List.mem_map.1 hlisted
  have hvouches := (hmemories after.memory List.mem_cons_self).values value hvalue
  exact ⟨result, after, hends, hsuperclass, hmodel ⟨0⟩ (.superclass hsuperclass), hvalues,
    hvouches.owner ⟨0⟩ hmethod⟩

end Indexing

end ClassIndex
