import ClassIndex.Proofs.Entries
import ClassIndex.Proofs.FrameRule

/-!
# Nothing is lost by indexing

A run extends the model that it starts from, also if it fails (`index_extends`).  This takes tables
in which every method stands under its own name (`Model.Tabled`), and all models that the operations
of this library build have such tables (`Built.tabled`): classes and methods may be made, registered
and changed by hand before, between and after the runs of any number of indexers.
-/

namespace ClassIndex

namespace Model

/-- Every table has a right index, and what it holds under a name is a method of that name. -/
structure Tabled (model : Model) : Prop where
  indexed : model.Indexed
  stored : ∀ {id side name method}, model.Stores id side name method →
    method.index < model.methods.size ∧ (model.methodAt method).name = name

/-- The names of the methods on one side of a class, in order of definition. -/
def namesAt (model : Model) (id : ClassId) (side : MethodSide) : List String :=
  ((model.classAt id).methods side).methods.map fun method => (model.methodAt method).name

/-- Methods are named as their entries are. -/
theorem Tabled.namesAt_eq {model : Model} (h : model.Tabled) (id : ClassId) (side : MethodSide) :
    model.namesAt id side = ((model.classAt id).methods side).names := by
  unfold namesAt MethodTable.methods MethodTable.names
  rw [List.map_map]
  refine List.map_congr_left fun entry hentry => ?_
  exact (h.stored hentry).2

section Operations

variable {model after : Model}

theorem tabled_empty : ({} : Model).Tabled where
  indexed _ := indexed_default
  stored hstores := absurd hstores not_stores_default

/-- Tables that are as they were keep their methods, if these keep their names. -/
theorem Tabled.of_sameTables (h : model.Tabled) (htables : model.SameTables after)
    (hmethods : ∀ method : MethodId, method.index < model.methods.size →
      method.index < after.methods.size ∧
        (after.methodAt method).name = (model.methodAt method).name) : after.Tabled where
  indexed id side := by
    rw [htables id side]
    exact h.indexed id side
  stored hstores := by
    obtain ⟨hbound, hname⟩ := h.stored (htables.stores hstores)
    obtain ⟨hbound', hname'⟩ := hmethods _ hbound
    exact ⟨hbound', hname'.trans hname⟩

theorem Tabled.of_same_methods (h : model.Tabled) (htables : model.SameTables after)
    (hmethods : after.methods = model.methods) : after.Tabled :=
  h.of_sameTables htables fun method hmethod =>
    ⟨hmethods ▸ hmethod, by rw [methodAt, methodAt, hmethods]⟩

theorem Tabled.addMethod (h : model.Tabled) (record : MethodRecord) :
    (model.addMethod record).2.Tabled := by
  refine h.of_sameTables (fun _ _ => rfl) fun method hmethod => ?_
  obtain ⟨hbound, hrecord⟩ := keepsMethods_addMethod record method hmethod
  exact ⟨hbound, by rw [hrecord]⟩

theorem Tabled.attachMethod (h : model.Tabled) (side : MethodSide) (id : ClassId)
    {method : MethodId} (hmethod : method.index < model.methods.size) :
    (model.attachMethod side id method).Tabled where
  indexed := (model.grows_attachMethod side id method h.indexed).1
  stored hstores := by
    rcases h.indexed.stores_attachMethod hstores with hold | ⟨-, -, rfl, rfl⟩
    · exact h.stored hold
    · exact ⟨hmethod, rfl⟩

theorem Tabled.addReturn (h : model.Tabled) (method : MethodId) (id : ClassId) :
    (model.addReturn method id).Tabled := by
  refine h.of_sameTables (fun _ _ => rfl) fun other hother => ?_
  have hsize : (model.addReturn method id).methods.size = model.methods.size := Array.size_modify
  refine ⟨by omega, ?_⟩
  unfold Model.addReturn modifyMethod methodAt
  rw [Array.getElem?_modify]
  split
  · rw [Array.getElem?_eq_getElem hother]
    simp only [Option.map_some, Option.getD_some, MethodRecord.addReturn]
    split <;> rfl
  · rfl

/-- A request enters methods under their own names only. -/
theorem Tabled.fulfil (h : model.Tabled) {request : Request} (hproper : request.IsProper) :
    (request.fulfil model).2.Tabled where
  indexed := (Request.grows_fulfil hproper model h.indexed).1
  stored hstores := by
    rcases Request.stores_fulfil hproper h.indexed hstores with hold | ⟨body, rfl, rfl⟩
    · obtain ⟨hbound, hname⟩ := h.stored hold
      obtain ⟨hbound', hrecord⟩ :=
        (Request.grows_fulfil hproper model h.indexed).2.methods _ hbound
      exact ⟨hbound', hrecord ▸ hname⟩
    · rw [Request.methodAt_fulfil_method, Request.size_fulfil_method]
      exact ⟨Nat.lt_succ_self _, Request.name_methodFrom _ _ _ _⟩

end Operations

/-! ## Built models -/

/-- Models that can be built from the empty one: by hand, and by runs of indexers with any memory.
New classes say nothing but what they are, and only methods that are there are entered. -/
inductive Built : Model → Prop
  | empty : Built {}
  | addClass {model : Model} {fullname : String} {record : ClassRecord} (h : Built model)
      (hrecord : record.IsHeading fullname) : Built (model.addClass record).2
  | define {model : Model} {name fullname : String} {record : ClassRecord} (h : Built model)
      (hrecord : record.IsHeading fullname) : Built (model.define name record).2
  | companion {model : Model} (h : Built model) (id : ClassId) : Built (model.companion id).2
  | addMethod {model : Model} (h : Built model) (record : MethodRecord) :
      Built (model.addMethod record).2
  | attachMethod {model : Model} {method : MethodId} (h : Built model) (side : MethodSide)
      (id : ClassId) (hmethod : method.index < model.methods.size) :
      Built (model.attachMethod side id method)
  | mixIn {model : Model} (h : Built model) (kind : MixinKind) (id source : ClassId) :
      Built (model.mixIn kind id source)
  | addReturn {model : Model} (h : Built model) (method : MethodId) (id : ClassId) :
      Built (model.addReturn method id)
  | index {levels : Nat} {body : Sequence} {machine after : Machine Model}
      {result : Except RunError Value} (h : Built machine.host.state)
      (hends : (Indexing.index levels body).Ends machine result after) : Built after.host.state

end Model

theorem Declarations.moves_tabled :
    processors.Moves fun host after => host.state.Tabled → after.state.Tabled :=
  moves_of_requests (R := fun model after => model.Tabled → after.Tabled) (fun _ h => h)
    (fun h₁ h₂ h => h₂ (h₁ h)) fun _ hrequest h =>
      h.fulfil (DeclarationKind.isProper_of_request hrequest)

namespace Indexing

variable {levels : Nat} {body : Sequence} {machine after : Machine Model}
  {result : Except RunError Value}

theorem tabled_of_index (h : machine.host.state.Tabled)
    (hends : (index levels body).Ends machine result after) : after.host.state.Tabled :=
  Declarations.moves_tabled.of_runInFrame _ _ _ _ _ _ (ends_index_iff.1 hends) h

end Indexing

theorem Model.Built.tabled {model : Model} (h : model.Built) : model.Tabled := by
  induction h with
  | empty => exact tabled_empty
  | addClass _ hrecord ih => exact ih.of_same_methods (sameTables_of_push rfl hrecord.methods) rfl
  | @define model name _ record _ hrecord ih =>
    refine ih.of_same_methods (model.sameTables_define name hrecord.methods) ?_
    unfold Model.define
    split <;> rfl
  | @companion model _ id ih =>
    exact ih.of_same_methods (model.sameTables_companion id) (model.methods_companion id)
  | addMethod _ record ih => exact ih.addMethod record
  | attachMethod _ side id hmethod ih => exact ih.attachMethod side id hmethod
  | mixIn _ kind id source ih => exact ih.of_same_methods (sameTables_mixIn _ kind id source) rfl
  | addReturn _ method id ih => exact ih.addReturn method id
  | index _ hends ih => exact Indexing.tabled_of_index ih hends

namespace Indexing

variable {levels : Nat} {body : Sequence} {machine after : Machine Model}
  {result : Except RunError Value}

/-- Indexing a sequence extends the model, whatever comes of it: the catalogue and the lists of
mixins have grown at their end only, classes keep what their first mention says and the singleton
class that they have, and methods are as they were.  The tables keep their methods in place, but for
those that are replaced by one of the same name, and new names follow at the end. -/
theorem index_extends (h : machine.host.state.Built)
    (hends : (index levels body).Ends machine result after) :
    machine.host.state.Extends after.host.state ∧
      ∀ id side, id.index < machine.host.state.classes.size →
        machine.host.state.namesAt id side <+: after.host.state.namesAt id side := by
  have hgrows : machine.host.state.Grows after.host.state :=
    Declarations.grows_of_runInFrame (ends_index_iff.1 hends)
  have hextends := (hgrows h.tabled.indexed).2
  refine ⟨hextends, fun id side hid => ?_⟩
  rw [h.tabled.namesAt_eq, (tabled_of_index h.tabled hends).namesAt_eq]
  exact (hextends.records id hid).names side

/-- A module with two methods, made by hand. -/
def prepared : Model :=
  let (id, model) := ({} : Model).define "Greeting" (.modular "Greeting" none)
  let (greet, model) := model.addMethod { name := "greet", owner := some id }
  let (hi, model) := (model.attachMethod .instanceSide id greet).addMethod
    { name := "hi", owner := some id }
  model.attachMethod .instanceSide id hi

theorem built_prepared : prepared.Built := by
  have hheading : (ClassRecord.modular "Greeting" none).IsHeading "Greeting" :=
    ⟨rfl, rfl, rfl, fun side => by cases side <;> rfl⟩
  refine .attachMethod (.addMethod (.attachMethod (.addMethod (.define .empty hheading) _) _ _ ?_)
    _) _ _ ?_
  all_goals exact Nat.lt_of_lt_of_eq (Nat.lt_succ_self _) (Array.size_push ..).symm

/-- Reopens the module, with one method again and one more, and leaves a value too many. -/
def extending : Sequence :=
  let greeting := (Sequence.start "<module:Greeting>" .classBody)
    |>.putSymbol "greet" |>.putBody Demo.create |>.call "core#define_method" 2 |>.pop
    |>.putSymbol "bye" |>.putBody Demo.create |>.call "core#define_method" 2
  (Demo.appendClass (.start "<main>" .top) "Greeting" none greeting .moduleBody).putNil.leave

/-- A run that fails has replaced a method in its place and added one at the end. -/
theorem index_extends_extending :
    (prepared.classAt ⟨0⟩).instanceMethods.methods = [⟨0⟩, ⟨1⟩] ∧
    ∃ result after, (index 4 extending).Ends (start .nil { state := prepared }) result after ∧
      result.isOk = false ∧
      (after.host.state.classAt ⟨0⟩).instanceMethods.methods = [⟨2⟩, ⟨1⟩, ⟨3⟩] ∧
      prepared.Extends after.host.state ∧
      prepared.namesAt ⟨0⟩ .instanceSide <+: after.host.state.namesAt ⟨0⟩ .instanceSide := by
  have hcheck : ((index 4 extending).run.run (start .nil { state := prepared })).any
      (fun ending => ending.1.isOk == false &&
        (ending.2.host.state.classAt ⟨0⟩).instanceMethods.methods == [⟨2⟩, ⟨1⟩, ⟨3⟩]) = true := by
    decide +kernel
  obtain ⟨result, after, hends, hrest⟩ := RunM.exists_ends_of_any hcheck
  rw [Bool.and_eq_true, beq_iff_eq, beq_iff_eq] at hrest
  obtain ⟨hfails, hafter⟩ := hrest
  obtain ⟨hextends, hnames⟩ :=
    index_extends (show (start .nil { state := prepared }).host.state.Built from built_prepared)
      hends
  refine ⟨by decide +kernel, result, after, hends, hfails, hafter, hextends, ?_⟩
  exact hnames ⟨0⟩ .instanceSide (by decide +kernel)

end Indexing

end ClassIndex
