import ClassIndex.Proofs.Errands

/-!
# How many instructions are handled

An instruction is handled if it has a meaning for indexing, also when its operands turn out to be
malformed.  `handledIn` counts the instructions that are handled while a body is run, those of the
bodies that are run within it included; the same instruction counts anew each time.  The machine
reports an event for each of them, so that the count can be read off the events if the processors
report none of that sort themselves: that is `runningCount_of_runInFrame`.
-/

namespace ClassIndex

namespace Machine

variable {σ : Type}

/-- A count of the instructions that are handled when a body is run with some `self`. -/
abbrev Tally (σ : Type) : Type :=
  Value → Sequence → Machine σ → Nat

/-- The count for the body of a reply, if it has one. -/
def handledReply (tally : Tally σ) : Reply → Machine σ → Nat
  | .definition entity body, machine => tally entity body machine
  | _, _ => 0

/-- The count for an instruction: one unless it is skipped, and those in the body that it runs. -/
def handledStep (processors : Processors σ) (tally : Tally σ) (instruction : Instruction)
    (machine : Machine σ) : Nat :=
  match instruction.command? with
  | none => 0
  | some (.error _) => 1
  | some (.ok command) =>
    match (prepare processors command).run.run (machine.reporting (.running instruction)) with
    | some (.ok reply, between) => 1 + handledReply tally reply between
    | _ => 1

/-- The count for code, up to its end, the first `leave` or the first failure. -/
def handledCode (processors : Processors σ) (nested : Nested σ) (tally : Tally σ) :
    List Instruction → Machine σ → Nat
  | [], _ => 0
  | instruction :: rest, machine =>
    handledStep processors tally instruction machine +
      match (step processors nested instruction).run.run machine with
      | some (.ok .next, between) => handledCode processors nested tally rest between
      | _ => 0

/-- The count for a body that is run in a frame and a scope of its own. -/
def handledIn (processors : Processors σ) : (levels : Nat) → Tally σ
  | 0, _, _, _ => 0
  | levels + 1, scope, body, machine =>
    handledCode processors (runInFrame processors levels) (handledIn processors levels) body.code
      (machine.entered scope body)

section Equations

variable {processors : Processors σ} {nested : Nested σ} {tally : Tally σ}
  {instruction : Instruction} {rest : List Instruction} {machine between after : Machine σ}
  {command : Command}

theorem handledStep_of_none (h : instruction.command? = none) :
    handledStep processors tally instruction machine = 0 := by
  simp only [handledStep, h]

theorem handledStep_of_error {error : RunError} (h : instruction.command? = some (.error error)) :
    handledStep processors tally instruction machine = 1 := by
  simp only [handledStep, h]

theorem handledStep_of_refused {error : RunError} (h : instruction.command? = some (.ok command))
    (hprepare : (prepare processors command).Ends (machine.reporting (.running instruction))
      (.error error) between) :
    handledStep processors tally instruction machine = 1 := by
  unfold RunM.Ends at hprepare
  simp only [handledStep, h, hprepare]

theorem handledStep_of_reply {reply : Reply} (h : instruction.command? = some (.ok command))
    (hprepare : (prepare processors command).Ends (machine.reporting (.running instruction))
      (.ok reply) between) :
    handledStep processors tally instruction machine = 1 + handledReply tally reply between := by
  unfold RunM.Ends at hprepare
  simp only [handledStep, h, hprepare]

/-- A `leave` runs no body. -/
theorem handledStep_of_leave (h : instruction.command? = some (.ok .leave)) :
    handledStep processors tally instruction machine = 1 := by
  have hprepare : (prepare processors .leave).Ends (machine.reporting (.running instruction))
      (.ok .nothing) (machine.reporting (.running instruction)) := rfl
  rw [handledStep_of_reply h hprepare]
  rfl

theorem handledCode_of_next
    (h : (step processors nested instruction).Ends machine (.ok .next) between) :
    handledCode processors nested tally (instruction :: rest) machine =
      handledStep processors tally instruction machine +
        handledCode processors nested tally rest between := by
  unfold RunM.Ends at h
  simp only [handledCode, h]

theorem handledCode_of_stop {result : Except RunError Flow}
    (h : (step processors nested instruction).Ends machine result between)
    (hresult : result ≠ .ok .next) :
    handledCode processors nested tally (instruction :: rest) machine =
      handledStep processors tally instruction machine := by
  unfold RunM.Ends at h
  rcases result with error | _ | _
  · simp only [handledCode, h, Nat.add_zero]
  · exact absurd rfl hresult
  · simp only [handledCode, h, Nat.add_zero]

end Equations

end Machine

/-! ## Events -/

/-- Whether an event reports an instruction that is handled. -/
def Event.isRunning : Event → Bool
  | .running _ => true
  | _ => false

/-- The number of instructions that were reported. -/
def Host.runningCount {σ : Type} (host : Host σ) : Nat :=
  host.events.countP Event.isRunning

theorem Host.runningCount_reporting {σ : Type} (host : Host σ) (event : Event) :
    (host.reporting event).runningCount = host.runningCount + if event.isRunning then 1 else 0 := by
  simp [runningCount, reporting, Array.countP_push]

/-- The processors report no instructions. -/
def Processors.Quiet {σ : Type} (processors : Processors σ) : Prop :=
  ∀ opcode qualifier values host outcome after,
    (processors.dispatch opcode qualifier values).run.run host = (outcome, after) →
      after.runningCount = host.runningCount

namespace Machine

variable {σ : Type} {processors : Processors σ} {nested : Nested σ} {tally : Tally σ}
  {machine after : Machine σ}

theorem runningCount_of_prepare (hquiet : processors.Quiet) {command : Command}
    {result : Except RunError Reply} (h : (prepare processors command).Ends machine result after) :
    after.host.runningCount = machine.host.runningCount := by
  obtain ⟨-, hhost⟩ := ends_prepare_iff.1 h
  split at hhost
  · rw [Command.perform_eq] at hhost
    generalize command.errand _ _ _ = errand at hhost
    cases errand with
    | answer reply =>
      have hafter : after.host = machine.host := (congrArg Prod.snd hhost).symm
      rw [hafter]
    | ignore method =>
      have hafter : after.host = machine.host.reporting (.ignoredCall method) :=
        (congrArg Prod.snd hhost).symm
      rw [hafter, Host.runningCount_reporting]
      rfl
    | declare opcode qualifier values reply =>
      rw [Errand.run_declare] at hhost
      rcases hdispatch : (processors.dispatch opcode qualifier values).run.run machine.host with
        ⟨error | value, between⟩
      all_goals
        rw [hdispatch] at hhost
        cases hhost
        exact hquiet _ _ _ _ _ _ hdispatch
  · rw [hhost.2]

/-- A way to run bodies whose count is that of the events. -/
def Tallied (nested : Nested σ) (tally : Tally σ) : Prop :=
  ∀ scope body machine result after, (nested scope body).Ends machine result after →
    after.host.runningCount = machine.host.runningCount + tally scope body machine

theorem runningCount_of_settle (hnested : Tallied nested tally) {reply : Reply}
    {result : Except RunError Unit} (h : (settle nested reply).Ends machine result after) :
    after.host.runningCount = machine.host.runningCount + handledReply tally reply machine := by
  cases reply with
  | nothing =>
    obtain ⟨-, rfl⟩ := RunM.ends_pure_iff.1 h
    rfl
  | value value =>
    obtain ⟨-, rfl⟩ := RunM.ends_push_iff.1 h
    rfl
  | definition entity body =>
    rcases ends_runEntityWith_iff.1 h with ⟨error, hbody, -⟩ | ⟨value, between, hbody, hafter⟩
    · exact hnested _ _ _ _ _ hbody
    · have hcount := hnested _ _ _ _ _ hbody
      split at hafter <;> (rw [hafter.2]; exact hcount)

theorem runningCount_of_step (hquiet : processors.Quiet) (hnested : Tallied nested tally)
    {instruction : Instruction} {result : Except RunError Flow}
    (h : (step processors nested instruction).Ends machine result after) :
    after.host.runningCount =
      machine.host.runningCount + handledStep processors tally instruction machine := by
  have hrunning : (machine.reporting (.running instruction)).host.runningCount =
      machine.host.runningCount + 1 :=
    Host.runningCount_reporting _ _
  cases stepEnds_of_ends h with
  | skipped hcommand =>
    rw [handledStep_of_none hcommand]
    exact Host.runningCount_reporting _ _
  | malformed hcommand => rw [handledStep_of_error hcommand, hrunning]
  | stuck hcommand _ => rw [handledStep_of_leave hcommand, hrunning]
  | left hcommand _ =>
    rw [handledStep_of_leave hcommand]
    exact hrunning
  | refused hcommand _ hprepare =>
    rw [handledStep_of_refused hcommand hprepare, runningCount_of_prepare hquiet hprepare, hrunning]
  | failed hcommand _ hprepare hsettle | settled hcommand _ hprepare hsettle =>
    have hbetween := runningCount_of_prepare hquiet hprepare
    rw [runningCount_of_settle hnested hsettle, handledStep_of_reply hcommand hprepare]
    omega

theorem runningCount_of_runCode (hquiet : processors.Quiet) (hnested : Tallied nested tally)
    {code : List Instruction} {result : Except RunError Unit}
    (h : (runCode processors nested code).Ends machine result after) :
    after.host.runningCount =
      machine.host.runningCount + handledCode processors nested tally code machine := by
  induction code generalizing machine with
  | nil =>
    obtain ⟨-, rfl⟩ := RunM.ends_pure_iff.1 h
    rfl
  | cons instruction rest ih =>
    rcases ends_runCode_cons_iff.1 h with ⟨error, hstep, -⟩ | ⟨hstep, -⟩ | ⟨between, hstep, hrest⟩
    · rw [handledCode_of_stop hstep nofun]
      exact runningCount_of_step hquiet hnested hstep
    · rw [handledCode_of_stop hstep nofun]
      exact runningCount_of_step hquiet hnested hstep
    · have hone := runningCount_of_step hquiet hnested hstep
      have hothers := ih hrest
      rw [handledCode_of_next hstep]
      omega

/-- The instructions that are handled in a body are those that are reported. -/
theorem runningCount_of_runInFrame (hquiet : processors.Quiet) (levels : Nat) :
    Tallied (runInFrame processors levels) (handledIn processors levels) := by
  induction levels with
  | zero => exact fun _ _ _ _ _ h => absurd h not_ends_runInFrame_zero
  | succ levels ih =>
    intro scope body machine result after h
    obtain ⟨outcome, inner, hcode, -, rfl⟩ := ends_runInFrame_succ_iff.1 h
    have hentered : (machine.entered scope body).host.runningCount = machine.host.runningCount :=
      Host.runningCount_reporting _ _
    rw [runningCount_of_runCode hquiet ih hcode, hentered]
    rfl

end Machine

end ClassIndex
