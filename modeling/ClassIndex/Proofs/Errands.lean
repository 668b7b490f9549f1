import ClassIndex.Proofs.Steps

/-!
# What commands ask of the host

A command asks one thing of the host at most, its `Errand`: it has its reply already, it reports a
call that declares nothing, or it hands a declaration to a processor.  `perform_eq` says so.  Hence
a relation between hosts that holds across reports and declarations holds across whole runs:
`Processors.Moves` is what is asked of the relation, `Moves.of_step` the step and
`Moves.of_runInFrame` the run.
-/

namespace ClassIndex

/-- What a command asks of the host. -/
inductive Errand where
  /-- Nothing: the reply is known. -/
  | answer (reply : Reply)
  /-- The call declares nothing, which is reported. -/
  | ignore (method : String)
  /-- The declaration is handed to a processor, and the reply is made of what that yields. -/
  | declare (opcode : Opcode) (qualifier : Option String) (values : List Value)
      (reply : Value → Reply)

namespace Errand

variable {σ : Type}

/-- Runs an errand. -/
def run (processors : Processors σ) : Errand → ActionM σ Reply
  | answer reply => return reply
  | ignore method => do
    ActionM.report (.ignoredCall method)
    return .nothing
  | declare opcode qualifier values reply => do
    return reply (← processors.dispatch opcode qualifier values)

/-- An errand with a declaration ends as the processor does. -/
theorem run_declare (processors : Processors σ) (opcode : Opcode) (qualifier : Option String)
    (values : List Value) (reply : Value → Reply) (host : Host σ) :
    ((declare opcode qualifier values reply).run processors).run.run host =
      match (processors.dispatch opcode qualifier values).run.run host with
      | (.ok value, after) => (.ok (reply value), after)
      | (.error error, after) => (.error error, after) := by
  rw [run, ActionM.run_bind]
  rcases (processors.dispatch opcode qualifier values).run.run host with ⟨_ | _, _⟩ <;> rfl

end Errand

namespace Command

/-- The errand of a command, given the values that the command took. -/
def errand (self root : Value) : Command → List Value → Errand
  | push value, _ => .answer (.value value)
  | pushSelf, _ => .answer (.value self)
  | pushRoot, _ => .answer (.value root)
  | refresh, [value] => .answer (.value value)
  | readConstant name, [enclosing] => .declare .getConstant none [name, enclosing] .value
  | defineClass name body flags, [superclass, enclosing] =>
    .declare .defineClass none [name, .sequence body, superclass, enclosing, flags]
      fun entity => .definition entity body
  | defineMethod .instanceSide, [body, name] =>
    .declare .optSendWithoutBlock MethodSide.instanceSide.definer [self, name, body]
      fun method => .ofMethod method body.sequence?
  | defineMethod .classSide, [body, name, receiver] =>
    .declare .optSendWithoutBlock MethodSide.classSide.definer [receiver, name, body]
      fun method => .ofMethod method body.sequence?
  | defineFromBlock side block, [name, receiver] =>
    .declare .send side.definer [receiver, name, .ofSequence? block]
      fun method => .ofMethod method block
  | findMethod side, [name, receiver] =>
    .declare .optSendWithoutBlock side.finder [receiver, name] .value
  | mixIn kind, [source, receiver] =>
    .declare .optSendWithoutBlock kind.name [receiver, source] fun _ => .nothing
  | ignoreCall method, _ => .ignore method
  | _, _ => .answer .nothing

/-- What the host does for a command is to run its errand. -/
theorem perform_eq {σ : Type} (processors : Processors σ) (self root : Value) (command : Command)
    (taken : List Value) :
    command.perform processors self root taken =
      (command.errand self root taken).run processors := by
  fun_cases perform processors self root command taken
  case case13 =>
    rw [errand]
    · rfl
    all_goals assumption
  all_goals rfl

end Command

/-! ## Hosts along a run -/

/-- A relation between hosts that holds across whatever the machine asks of its host. -/
structure Processors.Moves {σ : Type} (processors : Processors σ)
    (moves : Host σ → Host σ → Prop) : Prop where
  refl : ∀ host, moves host host
  trans : ∀ {first second third : Host σ}, moves first second → moves second third →
    moves first third
  report : ∀ host event, moves host (host.reporting event)
  dispatch : ∀ {opcode qualifier values host outcome after},
    (processors.dispatch opcode qualifier values).run.run host = (outcome, after) →
      moves host after

namespace Processors.Moves

open Machine

variable {σ : Type} {processors : Processors σ} {moves : Host σ → Host σ → Prop}

theorem of_errand (h : processors.Moves moves) {errand : Errand} {host after : Host σ}
    {outcome : Except RunError Reply}
    (hrun : (errand.run processors).run.run host = (outcome, after)) : moves host after := by
  cases errand with
  | answer reply =>
    cases hrun
    exact h.refl host
  | ignore method =>
    cases hrun
    exact h.report host _
  | declare opcode qualifier values reply =>
    rw [Errand.run_declare] at hrun
    rcases hdispatch : (processors.dispatch opcode qualifier values).run.run host with
      ⟨error | value, between⟩
    all_goals
      rw [hdispatch] at hrun
      cases hrun
      exact h.dispatch hdispatch

theorem of_prepare (h : processors.Moves moves) {command : Command} {machine after : Machine σ}
    {result : Except RunError Reply}
    (hprepare : (prepare processors command).Ends machine result after) :
    moves machine.host after.host := by
  obtain ⟨-, hends⟩ := ends_prepare_iff.1 hprepare
  split at hends
  · rw [Command.perform_eq] at hends
    exact h.of_errand hends
  · rw [hends.2]
    exact h.refl machine.host

/-- A way to run bodies across which the relation holds. -/
def Nests (moves : Host σ → Host σ → Prop) (nested : Nested σ) : Prop :=
  ∀ scope body machine result after, (nested scope body).Ends machine result after →
    moves machine.host after.host

section Bodies

variable {nested : Nested σ} {machine after : Machine σ}

theorem of_settle (h : processors.Moves moves) (hnested : Nests moves nested) {reply : Reply}
    {result : Except RunError Unit} (hsettle : (settle nested reply).Ends machine result after) :
    moves machine.host after.host := by
  cases reply with
  | nothing =>
    obtain ⟨-, rfl⟩ := RunM.ends_pure_iff.1 hsettle
    exact h.refl _
  | value value =>
    obtain ⟨-, rfl⟩ := RunM.ends_push_iff.1 hsettle
    exact h.refl _
  | definition entity body =>
    rcases ends_runEntityWith_iff.1 hsettle with
      ⟨error, hbody, -⟩ | ⟨value, between, hbody, hafter⟩
    · exact hnested _ _ _ _ _ hbody
    · have hmoves := hnested _ _ _ _ _ hbody
      split at hafter <;> (rw [hafter.2]; exact hmoves)

/-- Whatever becomes of an instruction, the relation holds across it. -/
theorem of_step (h : processors.Moves moves) (hnested : Nests moves nested)
    {instruction : Instruction} {result : Except RunError Flow}
    (hstep : (step processors nested instruction).Ends machine result after) :
    moves machine.host after.host := by
  have hreport (event : Event) : moves machine.host (machine.reporting event).host :=
    h.report machine.host event
  cases stepEnds_of_ends hstep with
  | skipped _ => exact hreport _
  | malformed _ => exact hreport _
  | stuck _ _ => exact hreport _
  | left _ _ => exact hreport (.running instruction)
  | refused _ _ hprepare => exact h.trans (hreport _) (h.of_prepare hprepare)
  | failed _ _ hprepare hsettle | settled _ _ hprepare hsettle =>
    have hprepared := h.trans (hreport _) (h.of_prepare hprepare)
    exact h.trans hprepared (h.of_settle hnested hsettle)

theorem of_runCode (h : processors.Moves moves) (hnested : Nests moves nested)
    {code : List Instruction} {result : Except RunError Unit}
    (hrun : (runCode processors nested code).Ends machine result after) :
    moves machine.host after.host := by
  induction code generalizing machine with
  | nil =>
    obtain ⟨-, rfl⟩ := RunM.ends_pure_iff.1 hrun
    exact h.refl _
  | cons instruction rest ih =>
    rcases ends_runCode_cons_iff.1 hrun with
      ⟨error, hstep, -⟩ | ⟨hstep, -⟩ | ⟨between, hstep, hrest⟩
    · exact h.of_step hnested hstep
    · exact h.of_step hnested hstep
    · exact h.trans (h.of_step hnested hstep) (ih hrest)

end Bodies

/-- The relation holds across the run of every body, however deep it nests. -/
theorem of_runInFrame (h : processors.Moves moves) (levels : Nat) :
    Nests moves (runInFrame processors levels) := by
  induction levels with
  | zero => exact fun _ _ _ _ _ hrun => absurd hrun not_ends_runInFrame_zero
  | succ levels ih =>
    intro scope body machine result after hrun
    obtain ⟨outcome, inner, hcode, -, rfl⟩ := ends_runInFrame_succ_iff.1 hrun
    exact h.trans (h.report machine.host (.entered body)) (h.of_runCode ih hcode)

end Processors.Moves

end ClassIndex
