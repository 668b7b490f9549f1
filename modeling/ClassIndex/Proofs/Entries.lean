import ClassIndex.Proofs.Ledger

/-!
# Entries of method tables

`model.Stores id side name method` says that a class has a method under a name.  Requests leave the
tables alone, except for a definition, which enters the method that it adds (`stores_fulfil`).  What
holds of the entries of a model is therefore settled by what holds of new methods, and
`methodAt_fulfil_method` says what those are.
-/

namespace ClassIndex

namespace Model

/-- The table of a class holds a method under a name. -/
def Stores (model : Model) (id : ClassId) (side : MethodSide) (name : String)
    (method : MethodId) : Prop :=
  (name, method) ∈ ((model.classAt id).methods side).entries.toList

theorem Indexed.findMethod?_eq_some_iff {model : Model} (h : model.Indexed) {id : ClassId}
    {side : MethodSide} {name : String} {method : MethodId} :
    model.findMethod? side id name = some method ↔ model.Stores id side name method :=
  (h id side).get?_eq_some_iff

theorem not_stores_default {side : MethodSide} {entry : String × MethodId} :
    entry ∉ ((default : ClassRecord).methods side).entries.toList := by
  cases side <;> exact List.not_mem_nil

/-! ## Operations -/

/-- Every class has the tables that it had, and no other class has a method. -/
def SameTables (model after : Model) : Prop :=
  ∀ id side, (after.classAt id).methods side = (model.classAt id).methods side

section Operations

variable {model after : Model} {id given : ClassId} {side side' : MethodSide} {name : String}
  {method method' : MethodId}

theorem SameTables.stores (h : model.SameTables after)
    (hstores : after.Stores id side name method) : model.Stores id side name method := by
  rw [Stores, h id side] at hstores
  exact hstores

theorem SameTables.trans {between : Model} (h₁ : model.SameTables between)
    (h₂ : between.SameTables after) : model.SameTables after :=
  fun id side => (h₂ id side).trans (h₁ id side)

theorem sameTables_of_push {record : ClassRecord}
    (hclasses : after.classes = model.classes.push record)
    (hrecord : ∀ side, record.methods side = {}) : model.SameTables after := by
  have hdefault (side : MethodSide) : (default : ClassRecord).methods side = {} := by
    cases side <;> rfl
  intro id side
  by_cases hlt : id.index < model.classes.size
  · rw [classAt_of_push hclasses hlt]
  · rw [classAt_of_size_le (show model.classes.size ≤ id.index by omega), hdefault]
    by_cases heq : id.index = model.classes.size
    · have hid : id = ⟨model.classes.size⟩ := congrArg ClassId.mk heq
      rw [hid, classAt_of_push_size hclasses, hrecord]
    · have hsize : after.classes.size = model.classes.size + 1 := by
        rw [hclasses, Array.size_push]
      rw [classAt_of_size_le (by omega), hdefault]

theorem sameTables_modifyClass {change : ClassRecord → ClassRecord}
    (hchange : ∀ record side, (change record).methods side = record.methods side) :
    model.SameTables (model.modifyClass id change) := by
  intro other side
  by_cases heq : other = id
  · subst heq
    by_cases hbound : other.index < model.classes.size
    · rw [classAt_modifyClass_self hbound, hchange]
    · rw [classAt_of_size_le (by rw [size_modifyClass]; omega), classAt_of_size_le (by omega)]
  · rw [classAt_modifyClass_ne heq]

theorem sameTables_define (model : Model) (name : String) {record : ClassRecord}
    (hrecord : ∀ side, record.methods side = {}) :
    model.SameTables (model.define name record).2 := by
  rcases hfind : model.catalogue.find? name with _ | id
  · rw [define_of_none hfind]
    exact sameTables_of_push rfl hrecord
  · rw [define_of_some hfind]
    exact fun _ _ => rfl

theorem sameTables_companion (model : Model) (id : ClassId) :
    model.SameTables (model.companion id).2 := by
  rcases hcompanion : (model.classAt id).companion with _ | other
  · rw [companion_of_none hcompanion]
    have hadd : model.SameTables (model.addClass (.companionOf id (model.classAt id))).2 :=
      sameTables_of_push rfl fun side => by cases side <;> rfl
    exact hadd.trans (sameTables_modifyClass fun _ side => by cases side <;> rfl)
  · rw [companion_of_some hcompanion]
    exact fun _ _ => rfl

theorem methods_companion (model : Model) (id : ClassId) :
    (model.companion id).2.methods = model.methods := by
  rcases hcompanion : (model.classAt id).companion with _ | other
  · rw [companion_of_none hcompanion]
    rfl
  · rw [companion_of_some hcompanion]

theorem sameTables_methodOwner (model : Model) (side : MethodSide) (id : ClassId) :
    model.SameTables (model.methodOwner side id).2 := by
  cases side with
  | instanceSide => exact fun _ _ => rfl
  | classSide => exact model.sameTables_companion id

theorem methods_methodOwner (model : Model) (side : MethodSide) (id : ClassId) :
    (model.methodOwner side id).2.methods = model.methods := by
  cases side with
  | instanceSide => rfl
  | classSide => exact model.methods_companion id

theorem sameTables_mixIn (model : Model) (kind : MixinKind) (id source : ClassId) :
    model.SameTables (model.mixIn kind id source) :=
  sameTables_modifyClass fun _ side => by cases side <;> rfl

/-- An entry is an old one or that of the method that is entered. -/
theorem Indexed.stores_attachMethod (h : model.Indexed)
    (hstores : (model.attachMethod side id method).Stores given side' name method') :
    model.Stores given side' name method' ∨
      given = id ∧ side' = side ∧ name = (model.methodAt method).name ∧ method' = method := by
  unfold Stores attachMethod at hstores
  by_cases heq : given = id
  · subst heq
    by_cases hbound : given.index < model.classes.size
    · rw [classAt_modifyClass_self hbound] at hstores
      by_cases hside : side' = side
      · subst hside
        rw [ClassRecord.methods_insertMethod_self, (h given side').toList_insert] at hstores
        rw [mem_upsert_iff (h given side').nodup] at hstores
        split at hstores
        · rename_i hname
          exact Or.inr ⟨rfl, rfl, hname, hstores.symm⟩
        · exact Or.inl hstores
      · rw [ClassRecord.methods_insertMethod_ne hside] at hstores
        exact Or.inl hstores
    · rw [classAt_of_size_le (by rw [size_modifyClass]; omega)] at hstores
      exact absurd hstores not_stores_default
  · rw [classAt_modifyClass_ne heq] at hstores
    exact Or.inl hstores

end Operations

end Model

/-! ## Requests -/

namespace Request

variable {model : Model} {id given : ClassId} {side side' : MethodSide} {name : String}
  {method : MethodId} {body : Value}

/-- The method that a definition adds is the next one. -/
theorem methodAt_fulfil_method :
    ((Request.method side id name body).fulfil model).2.methodAt ⟨model.methods.size⟩ =
      Declarations.methodFrom (model.methodOwner side id).2 name (model.methodOwner side id).1
        body := by
  rw [← model.methods_methodOwner side id]
  exact Model.methodAt_addMethod _

theorem size_fulfil_method :
    ((Request.method side id name body).fulfil model).2.methods.size = model.methods.size + 1 := by
  rw [← model.methods_methodOwner side id]
  exact Array.size_push ..

/-- After a request, an entry is an old one, or the request is the definition of its method. -/
theorem stores_fulfil {request : Request} (hproper : request.IsProper) (h : model.Indexed)
    (hstores : (request.fulfil model).2.Stores given side' name method) :
    model.Stores given side' name method ∨
      ∃ body, request = .method side' given name body ∧ method = ⟨model.methods.size⟩ := by
  cases request with
  | nothing | find _ _ _ => exact Or.inl hstores
  | define enclosing constant record =>
    exact Or.inl ((model.sameTables_define _ (hproper _).methods).stores hstores)
  | companion id => exact Or.inl ((model.sameTables_companion id).stores hstores)
  | mixIn kind id source => exact Or.inl ((model.sameTables_mixIn kind id source).stores hstores)
  | method side id defined body =>
    let owned := model.methodOwner side id
    let record := Declarations.methodFrom owned.2 defined owned.1 body
    have hindexed : (owned.2.addMethod record).2.Indexed :=
      (model.grows_methodOwner side id h).1
    have hadded : (owned.2.addMethod record).1 = ⟨model.methods.size⟩ :=
      congrArg (fun methods : Array MethodRecord => MethodId.mk methods.size)
        (model.methods_methodOwner side id)
    replace hstores : ((owned.2.addMethod record).2.attachMethod side id
        (owned.2.addMethod record).1).Stores given side' name method := hstores
    rcases hindexed.stores_attachMethod hstores with hold | ⟨rfl, rfl, hname, rfl⟩
    · exact Or.inl ((model.sameTables_methodOwner side id).stores hold)
    · have hdefined : name = defined := by
        rw [hname, Model.methodAt_addMethod]
        exact Request.name_methodFrom _ _ _ _
      subst hdefined
      exact Or.inr ⟨body, rfl, hadded⟩

end Request

end ClassIndex
