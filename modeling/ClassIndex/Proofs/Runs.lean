import ClassIndex.Machine.Run

/-!
# How runs end

`run.Ends machine result after` says that a run that starts on `machine` comes to an end, with
`result`, and leaves `after` behind.  This file gives, for each way in which runs are put together,
the ends of the whole in terms of the ends of its parts (`ends_pure_iff`, …, `ends_enclosed_iff`).
All that is said about the machine later on goes through these rules.
-/

namespace ClassIndex

/-- The host with one more event. -/
def Host.reporting {σ : Type} (host : Host σ) (event : Event) : Host σ :=
  { host with events := host.events.push event }

namespace ActionM

variable {σ α β : Type}

/-- The second action starts where the first one ended, unless that failed. -/
theorem run_bind (action : ActionM σ α) (next : α → ActionM σ β) (host : Host σ) :
    (action >>= next).run.run host = match action.run.run host with
      | (.ok value, between) => (next value).run.run between
      | (.error error, between) => (.error error, between) := by
  rw [ExceptT.run_bind, StateT.run_bind]
  generalize action.run.run host = ending
  rcases ending with ⟨outcome, between⟩
  cases outcome <;> rfl

end ActionM

namespace RunM

variable {σ α β : Type}

/-- Started on `machine`, the run ends with `result` and leaves `after` behind. -/
def Ends (run : RunM σ α) (machine : Machine σ) (result : Except RunError α)
    (after : Machine σ) : Prop :=
  run.run.run machine = some (result, after)

theorem Ends.iff {run : RunM σ α} {machine after₀ after : Machine σ}
    {result₀ result : Except RunError α} (h : run.Ends machine result₀ after₀) :
    run.Ends machine result after ↔ result = result₀ ∧ after = after₀ := by
  unfold Ends at h ⊢
  rw [h, Option.some.injEq, Prod.mk.injEq, eq_comm, eq_comm (a := after)]

/-- A run that can be evaluated has an end. -/
theorem exists_ends_of_any {run : RunM σ α} {machine : Machine σ}
    {check : Except RunError α × Machine σ → Bool} (h : (run.run.run machine).any check = true) :
    ∃ result after, run.Ends machine result after ∧ check (result, after) = true := by
  obtain ⟨⟨result, after⟩, hrun, hcheck⟩ := (Option.any_eq_true check _).1 h
  exact ⟨result, after, hrun, hcheck⟩

/-! ## Plain runs -/

section Rules

variable {machine after : Machine σ}

theorem ends_pure_iff {value : α} {result : Except RunError α} :
    (pure value : RunM σ α).Ends machine result after ↔ result = .ok value ∧ after = machine :=
  Ends.iff rfl

theorem ends_throw_iff {error : RunError} {result : Except RunError α} :
    (throw error : RunM σ α).Ends machine result after ↔
      result = .error error ∧ after = machine :=
  Ends.iff rfl

theorem run_bind (run : RunM σ α) (next : α → RunM σ β) (machine : Machine σ) :
    (run >>= next).run.run machine = (run.run.run machine).bind fun (outcome, between) =>
      match outcome with
      | .ok value => (next value).run.run between
      | .error error => some (.error error, between) := by
  rw [ExceptT.run_bind, StateT.run_bind]
  refine congrArg (Option.bind _) (funext fun (outcome, between) => ?_)
  cases outcome <;> rfl

/-- The second run starts where the first one ended, unless that failed. -/
theorem ends_bind_iff {run : RunM σ α} {next : α → RunM σ β} {result : Except RunError β} :
    (run >>= next).Ends machine result after ↔
      (∃ error, run.Ends machine (.error error) after ∧ result = .error error) ∨
        ∃ value between, run.Ends machine (.ok value) between ∧
          (next value).Ends between result after := by
  unfold Ends
  rw [run_bind]
  constructor
  · intro h
    obtain ⟨⟨outcome, between⟩, hrun, hnext⟩ := Option.bind_eq_some_iff.1 h
    cases outcome with
    | ok value => exact Or.inr ⟨value, between, hrun, hnext⟩
    | error error =>
      cases hnext
      exact Or.inl ⟨error, hrun, rfl⟩
  · rintro (⟨error, hrun, rfl⟩ | ⟨value, between, hrun, hnext⟩)
    · rw [hrun]
      rfl
    · rw [hrun]
      exact hnext

theorem Ends.bind {run : RunM σ α} {next : α → RunM σ β} {value : α} {between : Machine σ}
    {result : Except RunError β} (h : run.Ends machine (.ok value) between)
    (hnext : (next value).Ends between result after) :
    (run >>= next).Ends machine result after :=
  ends_bind_iff.2 (Or.inr ⟨value, between, h, hnext⟩)

theorem Ends.bind_error {run : RunM σ α} {error : RunError}
    (h : run.Ends machine (.error error) after) (next : α → RunM σ β) :
    (run >>= next).Ends machine (.error error) after :=
  ends_bind_iff.2 (Or.inl ⟨error, h, rfl⟩)

theorem not_ends_tooDeep {result : Except RunError α} :
    ¬ (tooDeep : RunM σ α).Ends machine result after := by
  intro h
  cases h

theorem ends_mk_pure_iff {given result : Except RunError α} :
    Ends (ExceptT.mk (pure given)) machine result after ↔ result = given ∧ after = machine :=
  Ends.iff rfl

/-! ## The host and the memory -/

theorem run_act (action : ActionM σ α) (machine : Machine σ) :
    (act action).run.run machine = some ((action.run.run machine.host).1,
      { machine with host := (action.run.run machine.host).2 }) :=
  rfl

theorem ends_act_iff {action : ActionM σ α} {result : Except RunError α} :
    (act action).Ends machine result after ↔
      ∃ host, action.run.run machine.host = (result, host) ∧
        after = { machine with host := host } := by
  unfold Ends
  rw [run_act]
  constructor
  · intro h
    cases h
    exact ⟨_, rfl, rfl⟩
  · rintro ⟨host, h, rfl⟩
    rw [h]

theorem ends_report_bind_iff {event : Event} {next : Unit → RunM σ β}
    {result : Except RunError β} :
    (report event >>= next).Ends machine result after ↔
      (next ()).Ends { machine with host := machine.host.reporting event } result after :=
  Iff.rfl

theorem ends_memory_bind_iff {next : Memory → RunM σ β} {result : Except RunError β} :
    (memory >>= next).Ends machine result after ↔
      (next machine.memory).Ends machine result after :=
  Iff.rfl

theorem ends_update_iff {change : Memory → Memory} {result : Except RunError Unit} :
    (update change : RunM σ Unit).Ends machine result after ↔
      result = .ok () ∧ after = { machine with memory := change machine.memory } :=
  Ends.iff rfl

theorem ends_update_bind_iff {change : Memory → Memory} {next : Unit → RunM σ β}
    {result : Except RunError β} :
    (update change >>= next).Ends machine result after ↔
      (next ()).Ends { machine with memory := change machine.memory } result after :=
  Iff.rfl

theorem ends_push_iff {value : Value} {result : Except RunError Unit} :
    (push value : RunM σ Unit).Ends machine result after ↔
      result = .ok () ∧ after = { machine with memory := machine.memory.push value } :=
  ends_update_iff

/-- An operation on the memory changes it only if it does not fail. -/
theorem ends_attempt_iff {operation : Memory → Except RunError (α × Memory)}
    {result : Except RunError α} :
    (attempt operation : RunM σ α).Ends machine result after ↔
      (∃ error, operation machine.memory = .error error ∧ result = .error error ∧
        after = machine) ∨
      ∃ value memory, operation machine.memory = .ok (value, memory) ∧ result = .ok value ∧
        after = { machine with memory := memory } := by
  unfold attempt
  rw [ends_memory_bind_iff]
  rcases operation machine.memory with error | ⟨value, memory⟩
  · simp only [ends_throw_iff, Except.error.injEq, reduceCtorEq, false_and, exists_false, or_false]
    exact ⟨fun h => ⟨error, rfl, h⟩, fun ⟨_, h, h'⟩ => h ▸ h'⟩
  · simp only [ends_update_bind_iff, ends_pure_iff, Except.ok.injEq, Prod.mk.injEq, reduceCtorEq,
      false_and, exists_false, false_or]
    exact ⟨fun h => ⟨value, memory, ⟨rfl, rfl⟩, h⟩, fun ⟨_, _, ⟨h, h'⟩, h''⟩ => h ▸ h' ▸ h''⟩

/-! ## Nested bodies -/

theorem run_outcome_bind (run : RunM σ α) (next : Except RunError α → RunM σ β)
    (machine : Machine σ) :
    (run.outcome >>= next).run.run machine =
      (run.run.run machine).bind fun (ending, between) => (next ending).run.run between := by
  rw [run_bind]
  unfold outcome
  rw [ExceptT.run_lift, StateT.run_map]
  cases run.run.run machine <;> rfl

/-- However a run ends, its outcome is a value. -/
theorem ends_outcome_bind_iff {run : RunM σ α} {next : Except RunError α → RunM σ β}
    {result : Except RunError β} :
    (run.outcome >>= next).Ends machine result after ↔
      ∃ ending between, run.Ends machine ending between ∧
        (next ending).Ends between result after := by
  unfold Ends
  rw [run_outcome_bind, Option.bind_eq_some_iff]
  exact ⟨fun ⟨(ending, between), h⟩ => ⟨ending, between, h⟩,
    fun ⟨ending, between, h⟩ => ⟨(ending, between), h⟩⟩

/-- The frame of a body is finished with whatever came of the body. -/
theorem ends_enclosed_iff {self : Value} {body : RunM σ Unit} {result : Except RunError Value} :
    (enclosed self body).Ends machine result after ↔
      ∃ outcome inner,
        body.Ends { machine with memory := machine.memory.enter self } outcome inner ∧
        result = (inner.memory.finish machine.memory.frameDepth outcome).1 ∧
        after =
          { inner with memory := (inner.memory.finish machine.memory.frameDepth outcome).2 } := by
  unfold enclosed
  simp only [ends_memory_bind_iff, ends_update_bind_iff, ends_outcome_bind_iff, ends_mk_pure_iff]

end Rules

end RunM

end ClassIndex
