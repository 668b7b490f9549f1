import ClassIndex.Proofs.Ownership

/-!
# Aliases and return classes

A method has a list of return classes, to which classes are added from outside, and an alias starts
with a copy of the list of its original.  The copy is made by adding the classes one by one, and so
it is exact only because no list has a class twice (`MethodRecord.aliased_of_nodup`).

`Model.History` tells how a model may come to be another one: declarations are made, methods are
made and copied by hand, anything is done to the classes, and return classes are added, in any
order.  By all of that a method changes in one way only, by the return classes that are added to
that very method (`History.methodAt_eq`).  Hence no list has a class twice, every method is new or a
copy when it is made, and from then on a copy and its original have nothing to do with each other
(`aliases_copy_and_isolate`).
-/

namespace ClassIndex

/-! ## Lists without repetitions -/

section Lists

variable {α : Type} [DecidableEq α]

theorem eraseDups_of_nodup {values : List α} (h : values.Nodup) : values.eraseDups = values := by
  induction values with
  | nil => rfl
  | cons value rest ih =>
    obtain ⟨hvalue, hrest⟩ := List.nodup_cons.1 h
    have hfilter : rest.filter (fun other => !other == value) = rest := by
      rw [List.filter_eq_self]
      intro other hother
      simpa using ne_of_mem_of_not_mem hother hvalue
    rw [List.eraseDups_cons, hfilter, ih hrest]

theorem eraseDups_append_cons {known : List α} {value : α} (h : value ∈ known) (rest : List α) :
    (known ++ value :: rest).eraseDups = (known ++ rest).eraseDups := by
  have hremove : (value :: rest).removeAll known = rest.removeAll known := by
    simp [List.removeAll, h]
  rw [List.eraseDups_append, hremove, ← List.eraseDups_append]

end Lists

namespace MethodRecord

variable {method : MethodRecord}

theorem nodup_addReturn (h : method.returns.Nodup) (id : ClassId) :
    (method.addReturn id).returns.Nodup := by
  unfold addReturn
  split
  · exact h
  · rename_i hid
    exact nodup_append_singleton h hid

theorem nodup_foldl_addReturn (h : method.returns.Nodup) (ids : List ClassId) :
    (ids.foldl addReturn method).returns.Nodup := by
  induction ids generalizing method with
  | nil => exact h
  | cons id rest ih => exact ih (nodup_addReturn h id)

/-- Classes are kept in the order of their first addition. -/
theorem foldl_addReturn_eq (h : method.returns.Nodup) (ids : List ClassId) :
    ids.foldl addReturn method = { method with returns := (method.returns ++ ids).eraseDups } := by
  induction ids generalizing method with
  | nil => rw [List.append_nil, eraseDups_of_nodup h, List.foldl_nil]
  | cons id rest ih =>
    rw [List.foldl_cons, ih (nodup_addReturn h id), addReturn_eq]
    dsimp only
    split
    · rename_i hid
      rw [eraseDups_append_cons hid]
    · rw [List.append_assoc, List.singleton_append]

/-- Of a list without repetitions an exact copy is made. -/
theorem aliased_of_nodup (h : method.returns.Nodup) (name : String) (owner : Option ClassId) :
    method.aliased name owner = { method with name := name, owner := owner } := by
  rw [aliased, foldl_addReturn_eq List.nodup_nil, List.nil_append, eraseDups_of_nodup h]

end MethodRecord

/-! ## Steps -/

namespace Model

/-- What a method is when it is made: it has no return classes, or it is a copy of a method that is
there. -/
inductive Starts (model : Model) : MethodRecord → Prop
  | fresh {record : MethodRecord} (h : record.returns = []) : Starts model record
  | copied {original : MethodId} (h : original.index < model.methods.size) (name : String)
      (owner : Option ClassId) : Starts model ((model.methodAt original).aliased name owner)

/-- Anything that may happen to a model at once, but for a return class that is added. -/
inductive Step (model : Model) : Model → Prop
  /-- A declaration is made with any arguments, whatever comes of it. -/
  | declare (kind : DeclarationKind) (args : Arguments) (events : Array Event) :
      Step model ((kind.processor args).run.run ⟨model, events⟩).2.state
  /-- A method is made by hand, which may override another one. -/
  | make (name : String) (owner : Option ClassId) (parameters : List Parameter)
      (overridden : Option MethodId) :
      Step model (model.addMethod
        { name := name, owner := owner, parameters := parameters, overridden := overridden }).2
  /-- A method is copied by hand. -/
  | copy (original : MethodId) (name : String) (owner : Option ClassId) :
      Step model (model.addMethod ((model.methodAt original).aliased name owner)).2
  /-- Something is done to the classes only. -/
  | classes {after : Model} (h : after.methods = model.methods) : Step model after

section Steps

variable {model after : Model} {method : MethodId}

theorem methodAt_of_size_le (h : model.methods.size ≤ method.index) :
    model.methodAt method = default := by
  unfold methodAt
  rw [Array.getElem?_eq_none h, Option.getD_none]

theorem methodAt_of_push {record : MethodRecord} (h : after.methods = model.methods.push record)
    (method : MethodId) :
    after.methodAt method =
      if method.index = model.methods.size then record else model.methodAt method := by
  unfold methodAt
  rw [h, Array.getElem?_push]
  split <;> rfl

theorem nodup_returns_empty (method : MethodId) : (({} : Model).methodAt method).returns.Nodup :=
  List.nodup_nil

theorem methods_define (model : Model) (name : String) (record : ClassRecord) :
    (model.define name record).2.methods = model.methods := by
  unfold define
  split <;> rfl

/-- A copy of something that is no method is as good as new. -/
theorem starts_aliased (model : Model) (original : MethodId) (name : String)
    (owner : Option ClassId) : model.Starts ((model.methodAt original).aliased name owner) := by
  by_cases horiginal : original.index < model.methods.size
  · exact .copied horiginal name owner
  · rw [methodAt_of_size_le (by omega)]
    exact .fresh rfl

theorem starts_methodFrom (model : Model) (side : MethodSide) (id : ClassId) (name : String)
    (body : Value) :
    model.Starts (Declarations.methodFrom (model.methodOwner side id).2 name
      (model.methodOwner side id).1 body) := by
  cases body with
  | methodRef original =>
    rw [Declarations.methodFrom, methodAt, model.methods_methodOwner side id]
    exact model.starts_aliased original name _
  | nil | literal _ | classRef _ | sequence _ => exact .fresh rfl

theorem Starts.nodup {record : MethodRecord} (h : model.Starts record) : record.returns.Nodup := by
  cases h with
  | fresh h => exact h ▸ List.nodup_nil
  | copied _ name owner => exact MethodRecord.nodup_foldl_addReturn List.nodup_nil _

/-- Where no return class stands twice, a copy differs in its name and its owner only. -/
theorem Starts.origin {record : MethodRecord} (h : model.Starts record)
    (hmodel : ∀ method, (model.methodAt method).returns.Nodup) :
    record.returns = [] ∨
      ∃ (original : MethodId) (name : String) (owner : Option ClassId),
        original.index < model.methods.size ∧
          record = { model.methodAt original with name := name, owner := owner } := by
  cases h with
  | fresh h => exact Or.inl h
  | @copied original h name owner =>
    exact Or.inr ⟨original, name, owner, h,
      MethodRecord.aliased_of_nodup (hmodel original) name owner⟩

theorem methods_fulfil (request : Request) (model : Model) :
    (request.fulfil model).2.methods = model.methods ∨
      ∃ record, (request.fulfil model).2.methods = model.methods.push record ∧
        model.Starts record := by
  cases request with
  | nothing | find _ _ _ | mixIn _ _ _ => exact Or.inl rfl
  | define enclosing name record => exact Or.inl (model.methods_define _ _)
  | companion id => exact Or.inl (model.methods_companion id)
  | method side id name body =>
    refine Or.inr ⟨_, ?_, model.starts_methodFrom side id name body⟩
    rw [← model.methods_methodOwner side id]
    rfl

theorem Step.methods_cases (h : model.Step after) :
    after.methods = model.methods ∨
      ∃ record, after.methods = model.methods.push record ∧ model.Starts record := by
  cases h with
  | declare kind args events =>
    have hstate := congrArg Prod.snd (kind.run_processor args ⟨model, events⟩)
    dsimp only at hstate
    rw [hstate]
    cases kind.request args with
    | error error => exact Or.inl rfl
    | ok request => exact methods_fulfil request model
  | make name owner parameters overridden => exact Or.inr ⟨_, rfl, .fresh rfl⟩
  | copy original name owner => exact Or.inr ⟨_, rfl, model.starts_aliased original name owner⟩
  | classes h => exact Or.inl h

theorem Step.keepsMethods (h : model.Step after) : model.KeepsMethods after := by
  rcases h.methods_cases with hmethods | ⟨record, hmethods, -⟩
  · exact keepsMethods_of_eq hmethods
  · intro method hmethod
    rw [hmethods, Array.size_push, methodAt_of_push hmethods, if_neg (by omega)]
    exact ⟨by omega, rfl⟩

theorem size_addReturn (model : Model) (method : MethodId) (id : ClassId) :
    (model.addReturn method id).methods.size = model.methods.size :=
  Array.size_modify

theorem methodAt_addReturn (hmethod : method.index < model.methods.size) (other : MethodId)
    (id : ClassId) :
    (model.addReturn other id).methodAt method =
      if other = method then (model.methodAt method).addReturn id else model.methodAt method := by
  have hindex : other.index = method.index ↔ other = method :=
    ⟨fun h => by cases other; cases method; exact congrArg _ h, congrArg _⟩
  unfold addReturn modifyMethod methodAt
  rw [Array.getElem?_modify, Array.getElem?_eq_getElem hmethod]
  simp only [hindex]
  split <;> rfl

end Steps

/-! ## Histories -/

/-- How a model may come to be another one, with the return classes that are added on the way. -/
inductive History (model : Model) : List (MethodId × ClassId) → Model → Prop
  | start : History model [] model
  | step {additions : List (MethodId × ClassId)} {between after : Model}
      (h : History model additions between) (hstep : between.Step after) :
      History model additions after
  | addReturn {additions : List (MethodId × ClassId)} {between : Model}
      (h : History model additions between) (method : MethodId) (id : ClassId) :
      History model (additions ++ [(method, id)]) (between.addReturn method id)

/-- The return classes that are added to one method, in order. -/
def additionsTo (method : MethodId) (additions : List (MethodId × ClassId)) : List ClassId :=
  (additions.filter fun addition => addition.1 = method).map Prod.snd

/-- A method came about in a step from one model to the other.  It has no return classes then, or it
is another method but for its name and its owner. -/
structure Born (before birth : Model) (method : MethodId) : Prop where
  step : before.Step birth
  index : method.index = before.methods.size
  added : birth.methods = before.methods.push (birth.methodAt method)
  origin : (birth.methodAt method).returns = [] ∨
    ∃ (original : MethodId) (name : String) (owner : Option ClassId),
      original.index < before.methods.size ∧
        birth.methodAt method = { before.methodAt original with name := name, owner := owner }

namespace History

variable {model after : Model} {additions : List (MethodId × ClassId)} {method : MethodId}

theorem additionsTo_append_singleton (method other : MethodId) (id : ClassId) :
    additionsTo method (additions ++ [(other, id)]) =
      additionsTo method additions ++ if other = method then [id] else [] := by
  unfold additionsTo
  rw [List.filter_append, List.map_append, List.filter_singleton]
  by_cases h : other = method <;> simp [h]

/-- Whatever happens, a method changes by the return classes that are added to it. -/
theorem methodAt_eq (h : model.History additions after)
    (hmethod : method.index < model.methods.size) :
    method.index < after.methods.size ∧
      after.methodAt method =
        (additionsTo method additions).foldl MethodRecord.addReturn (model.methodAt method) := by
  induction h with
  | start => exact ⟨hmethod, rfl⟩
  | step _ hstep ih =>
    obtain ⟨hbound, hrecord⟩ := hstep.keepsMethods method ih.1
    exact ⟨hbound, hrecord.trans ih.2⟩
  | @addReturn _ between _ other id ih =>
    refine ⟨(between.size_addReturn other id).symm ▸ ih.1, ?_⟩
    rw [methodAt_addReturn ih.1, additionsTo_append_singleton, List.foldl_append, ← ih.2]
    split <;> rfl

theorem nodup (h : model.History additions after)
    (hmodel : ∀ method, (model.methodAt method).returns.Nodup) (method : MethodId) :
    (after.methodAt method).returns.Nodup := by
  induction h with
  | start => exact hmodel method
  | @step _ between after _ hstep ih =>
    rcases hstep.methods_cases with hmethods | ⟨record, hmethods, hstarts⟩
    · rw [methodAt, hmethods]
      exact ih
    · rw [methodAt_of_push hmethods]
      split
      · exact hstarts.nodup
      · exact ih
  | @addReturn _ between _ other id ih =>
    by_cases hmethod : method.index < between.methods.size
    · rw [methodAt_addReturn hmethod]
      split
      · exact MethodRecord.nodup_addReturn ih id
      · exact ih
    · rw [methodAt_of_size_le (by rw [size_addReturn]; omega)]
      exact List.nodup_nil

/-- Every method came about at some time, and what follows is a history of its own. -/
theorem exists_born (h : History {} additions model) (hmethod : method.index < model.methods.size) :
    ∃ earlier before birth later, History {} earlier before ∧ Born before birth method ∧
      birth.History later model ∧ additions = earlier ++ later := by
  induction h with
  | start => exact absurd hmethod (Nat.not_lt_zero _)
  | @step additions between after h hstep ih =>
    by_cases hold : method.index < between.methods.size
    · obtain ⟨earlier, before, birth, later, hearlier, hborn, hlater, hadditions⟩ := ih hold
      exact ⟨earlier, before, birth, later, hearlier, hborn, hlater.step hstep, hadditions⟩
    · -- The method is not there before the step, so it is the one that the step adds.
      rcases hstep.methods_cases with hmethods | ⟨record, hmethods, hstarts⟩
      · exact absurd (hmethods ▸ hmethod) hold
      · have hindex : method.index = between.methods.size := by
          rw [hmethods, Array.size_push] at hmethod
          omega
        have hrecord : after.methodAt method = record := by
          rw [methodAt_of_push hmethods, if_pos hindex]
        subst hrecord
        have horigin := hstarts.origin (h.nodup nodup_returns_empty)
        exact ⟨additions, between, after, [], h, ⟨hstep, hindex, hmethods, horigin⟩, .start,
          (List.append_nil additions).symm⟩
  | @addReturn additions between h other id ih =>
    rw [size_addReturn] at hmethod
    obtain ⟨earlier, before, birth, later, hearlier, hborn, hlater, rfl⟩ := ih hmethod
    exact ⟨earlier, before, birth, _, hearlier, hborn, hlater.addReturn other id,
      List.append_assoc ..⟩

theorem trans {first second third : Model} {earlier later : List (MethodId × ClassId)}
    (h₁ : first.History earlier second) (h₂ : second.History later third) :
    first.History (earlier ++ later) third := by
  induction h₂ with
  | start => rwa [List.append_nil]
  | step _ hstep ih => exact ih.step hstep
  | addReturn _ method id ih =>
    rw [← List.append_assoc]
    exact ih.addReturn method id

theorem of_index {levels : Nat} {body : Sequence} {machine after : Machine Model}
    {result : Except RunError Value} (h : (Indexing.index levels body).Ends machine result after) :
    machine.host.state.History [] after.host.state := by
  have hdeclare {kind : DeclarationKind} {args : Arguments} {request : Request} (model : Model)
      (hrequest : kind.request args = .ok request) :
      model.History [] (request.fulfil model).2 := by
    have hstep : model.Step ((kind.processor args).run.run ⟨model, #[]⟩).2.state :=
      .declare kind args #[]
    have hstate := congrArg Prod.snd (kind.run_processor args ⟨model, #[]⟩)
    dsimp only at hstate
    rw [hstate, hrequest] at hstep
    exact .step .start hstep
  have moves : Declarations.processors.Moves fun host after => host.state.History [] after.state :=
    Declarations.moves_of_requests (fun _ => .start) trans hdeclare
  exact moves.of_runInFrame _ _ _ _ _ _ (Indexing.ends_index_iff.1 h)

end History

end Model

/-! ## Aliases -/

/-- A method to which return classes were added; each counts at its first addition. -/
def MethodRecord.withReturns (method : MethodRecord) (ids : List ClassId) : MethodRecord :=
  { method with returns := (method.returns ++ ids).eraseDups }

namespace Model

variable {model after : Model} {additions later : List (MethodId × ClassId)} {method : MethodId}

theorem History.methodAt_eq_withReturns (h : History {} additions model)
    (hlater : model.History later after) (hmethod : method.index < model.methods.size) :
    after.methodAt method = (model.methodAt method).withReturns (additionsTo method later) := by
  rw [(hlater.methodAt_eq hmethod).2]
  exact MethodRecord.foldl_addReturn_eq (h.nodup nodup_returns_empty method) _

theorem ownerOf_attachMethod (model : Model) (side given : MethodSide) (id : ClassId)
    (method : MethodId) :
    (model.attachMethod side id method).ownerOf given id = model.ownerOf given id := by
  have hcompanion (record : ClassRecord) (name : String) :
      (record.insertMethod side name method).companion = record.companion := by
    cases side <;> rfl
  cases given with
  | instanceSide => rfl
  | classSide =>
    show ((model.modifyClass id _).classAt id).companion = (model.classAt id).companion
    by_cases hid : id.index < model.classes.size
    · rw [classAt_modifyClass_self hid, hcompanion]
    · rw [classAt_of_size_le (by rw [size_modifyClass]; omega), classAt_of_size_le (by omega)]

theorem run_defineMethod (side : MethodSide) (host : Host Model) {args : Arguments} {id : ClassId}
    {name : String} (hreceiver : args.get 0 = .classRef id)
    (hname : (args.get 1).name? = some name) :
    ((Declarations.defineMethod side args).run.run host).1 =
        .ok (.methodRef ⟨host.state.methods.size⟩) ∧
      ((Declarations.defineMethod side args).run.run host).2.state =
        ((Request.method side id name (args.get 2)).fulfil host.state).2 := by
  have hrequest : (DeclarationKind.defineMethod side).request args =
      .ok (.method side id name (args.get 2)) := by
    rw [DeclarationKind.request, hreceiver]
    show args.name 1 >>= _ = _
    rw [Arguments.name, hname]
    rfl
  have hresults := (DeclarationKind.defineMethod side).run_processor args host
  rw [hrequest] at hresults
  obtain ⟨hresult, hstate⟩ := Prod.mk.inj hresults
  refine ⟨?_, hstate⟩
  rw [← host.state.methods_methodOwner side id]
  exact hresult

/-- At any time, no method has a return class twice, and each has those that it was made with and
those that were added since, in the order of their first addition.  The definition of a method with
another method for its body makes a copy, which differs from the original in its name and its owner.
All other methods are left as they are, and from then on the copy and the original change only by
what is added to each of them. -/
theorem aliases_copy_and_isolate (h : History {} additions model) :
    (∀ method, (model.methodAt method).returns.Nodup) ∧
    (∀ method : MethodId, method.index < model.methods.size →
      ∃ earlier before birth later, History {} earlier before ∧ Born before birth method ∧
        birth.History later model ∧ additions = earlier ++ later ∧
        model.methodAt method =
          (birth.methodAt method).withReturns (additionsTo method later)) ∧
    ∀ (side : MethodSide) (args : Arguments) (host : Host Model) (id : ClassId) (name : String)
      (original : MethodId), host.state = model →
      args.get 0 = .classRef id → id.index < model.classes.size →
      (args.get 1).name? = some name →
      args.get 2 = .methodRef original → original.index < model.methods.size →
      let ending := (Declarations.defineMethod side args).run.run host
      ∃ copy owner, ending.1 = .ok (.methodRef copy) ∧ copy ≠ original ∧
        ending.2.state.ownerOf side id = some owner ∧
        ending.2.state.methodAt copy =
          { model.methodAt original with name := name, owner := some owner } ∧
        (∀ method : MethodId, method.index < model.methods.size →
          ending.2.state.methodAt method = model.methodAt method) ∧
        ∀ later after, ending.2.state.History later after →
          after.methodAt original =
            (model.methodAt original).withReturns (additionsTo original later) ∧
          after.methodAt copy =
            (ending.2.state.methodAt copy).withReturns (additionsTo copy later) := by
  have hnodup := h.nodup nodup_returns_empty
  refine ⟨hnodup, fun method hmethod => ?_, ?_⟩
  · obtain ⟨earlier, before, birth, later, hearlier, hborn, hlater, rfl⟩ := h.exists_born hmethod
    refine ⟨earlier, before, birth, later, hearlier, hborn, hlater, rfl, ?_⟩
    have hbirth : method.index < birth.methods.size := by
      rw [hborn.added, Array.size_push, hborn.index]
      exact Nat.lt_succ_self _
    exact (hearlier.step hborn.step).methodAt_eq_withReturns hlater hbirth
  · rintro side args host id name original rfl hreceiver hid hname hbody horiginal ending
    obtain ⟨hresult, hstate⟩ := run_defineMethod side host hreceiver hname
    rw [hbody] at hstate
    have hstep : host.state.Step ending.2.state := .declare (.defineMethod side) args host.events
    have hending : History {} additions ending.2.state := h.step hstep
    have hsize : ending.2.state.methods.size = host.state.methods.size + 1 := by
      rw [hstate, Request.size_fulfil_method]
    refine ⟨⟨host.state.methods.size⟩, (host.state.methodOwner side id).1, hresult, ?_, ?_, ?_,
      fun method hmethod => (hstep.keepsMethods method hmethod).2,
      fun later after hlater => ⟨?_, ?_⟩⟩
    · rintro rfl
      exact absurd horiginal (Nat.lt_irrefl _)
    · rw [hstate]
      exact (ownerOf_attachMethod _ side side id _).trans (ownerOf_methodOwner side hid)
    · rw [hstate, Request.methodAt_fulfil_method, Declarations.methodFrom, methodAt,
        host.state.methods_methodOwner side id]
      exact MethodRecord.aliased_of_nodup (hnodup original) name _
    · obtain ⟨hbound, hrecord⟩ := hstep.keepsMethods original horiginal
      rw [hending.methodAt_eq_withReturns hlater hbound, hrecord]
    · exact hending.methodAt_eq_withReturns hlater (hsize ▸ Nat.lt_succ_self _)

/-- After its first return class, the method of the demonstration gets a second name on the side of
another class.  The next return class of one of them is not one of the other. -/
theorem aliases_copy_and_isolate_demo :
    ∃ result after,
      (Indexing.index 4 Demo.program).Ends (Indexing.start .nil { state := {} }) result after ∧
      ∃ copy ended,
        (Declarations.defineMethod .classSide
          ⟨"send", [.classRef ⟨2⟩, .literal (.symbol "hello"), .methodRef ⟨0⟩]⟩).run.run
            { state := after.host.state.addReturn ⟨0⟩ ⟨1⟩ } = (.ok (.methodRef copy), ended) ∧
        copy ≠ ⟨0⟩ ∧
        let final := (ended.state.addReturn copy ⟨0⟩).addReturn ⟨0⟩ ⟨2⟩
        (final.methodAt ⟨0⟩).name = "greet" ∧ (final.methodAt ⟨0⟩).returns = [⟨1⟩, ⟨2⟩] ∧
        (final.methodAt copy).name = "hello" ∧ (final.methodAt copy).returns = [⟨1⟩, ⟨0⟩] := by
  have hcheck : ((Indexing.index 4 Demo.program).run.run
      (Indexing.start .nil { state := {} })).any (fun ending =>
        let model := ending.2.host.state.addReturn ⟨0⟩ ⟨1⟩
        decide (2 < model.classes.size) && decide (0 < model.methods.size) &&
          (model.methodAt ⟨0⟩).name == "greet" &&
            (model.methodAt ⟨0⟩).returns == [⟨1⟩]) = true := by
    decide +kernel
  obtain ⟨result, after, hends, hmodel⟩ := RunM.exists_ends_of_any hcheck
  simp only [Bool.and_eq_true, decide_eq_true_eq, beq_iff_eq] at hmodel
  obtain ⟨⟨⟨hclass, hmethod⟩, hname⟩, hreturns⟩ := hmodel
  have hhistory := (History.of_index hends).addReturn ⟨0⟩ ⟨1⟩
  refine ⟨result, after, hends, ?_⟩
  -- What matters of the model from here on is in the hypotheses.
  generalize after.host.state.addReturn ⟨0⟩ ⟨1⟩ = model at *
  obtain ⟨-, -, haliases⟩ := aliases_copy_and_isolate hhistory
  obtain ⟨copy, owner, hresult, hne, -, hcopy, -, hlater⟩ := haliases .classSide
    ⟨"send", [.classRef ⟨2⟩, .literal (.symbol "hello"), .methodRef ⟨0⟩]⟩
    { state := model } ⟨2⟩ "hello" ⟨0⟩ rfl rfl hclass rfl rfl hmethod
  generalize (Declarations.defineMethod .classSide _).run.run _ = ending at *
  obtain ⟨hfinal, hfinal'⟩ := hlater _ _ ((History.start.addReturn copy ⟨0⟩).addReturn ⟨0⟩ ⟨2⟩)
  have hadded : additionsTo ⟨0⟩ ([] ++ [(copy, ⟨0⟩)] ++ [(⟨0⟩, ⟨2⟩)]) = [⟨2⟩] := by
    simp [additionsTo, hne]
  have hadded' : additionsTo copy ([] ++ [(copy, ⟨0⟩)] ++ [(⟨0⟩, ⟨2⟩)]) = [⟨0⟩] := by
    simp [additionsTo, hne.symm]
  rw [hadded] at hfinal
  rw [hadded', hcopy] at hfinal'
  refine ⟨copy, ending.2, Prod.ext hresult rfl, hne, ?_⟩
  intro final
  replace hfinal : final.methodAt ⟨0⟩ = _ := hfinal
  replace hfinal' : final.methodAt copy = _ := hfinal'
  simp only [hfinal, hfinal', MethodRecord.withReturns, hname, hreturns]
  exact ⟨trivial, rfl, trivial, rfl⟩

end Model

end ClassIndex
