import ClassIndex.Proofs.Commands

/-!
# Steps and what code reaches

`StepEnds` lists the ways in which a single instruction can end: it is skipped, it is malformed, it
leaves the body or cannot, its values do not suffice or the host refuses it, or it is settled, which
again may fail.  A run through some code is a chain of steps: `Reaches` says which instructions it
gets to, a property that every step keeps holds at all of them (`Reaches.invariant`), and the run
ends at one of them (`reaches_of_ends_runCode`).
-/

namespace ClassIndex

namespace Machine

variable {σ : Type}

/-- The machine after an event was reported. -/
def reporting (machine : Machine σ) (event : Event) : Machine σ :=
  { machine with host := machine.host.reporting event }

theorem memory_reporting (machine : Machine σ) (event : Event) :
    (machine.reporting event).memory = machine.memory := rfl

/-! ## Commands -/

section Commands

variable {processors : Processors σ} {nested : Nested σ} {machine after : Machine σ}

/-- A command takes its values in any case, and the host acts on them if there are enough. -/
theorem ends_prepare_iff {command : Command} {result : Except RunError Reply} :
    (prepare processors command).Ends machine result after ↔
      after.memory = machine.memory.dropping command.takes ∧
        if command.takes ≤ machine.memory.depth then
          (command.perform processors machine.memory.self machine.memory.root
            (machine.memory.values.take command.takes)).run.run machine.host =
              (result, after.host)
        else result = .error .stackUnderflow ∧ after.host = machine.host := by
  have htake := RunM.take_ends command.takes machine
  rcases after with ⟨memory, host⟩
  unfold prepare
  by_cases hdepth : command.takes ≤ machine.memory.depth
  · rw [if_pos hdepth] at htake ⊢
    rw [RunM.ends_bind_iff]
    simp only [htake.iff, reduceCtorEq, false_and, exists_false, false_or, Except.ok.injEq]
    constructor
    · rintro ⟨_, _, ⟨rfl, rfl⟩, h⟩
      obtain ⟨_, h, hafter⟩ := RunM.ends_act_iff.1 (RunM.ends_memory_bind_iff.1 h)
      cases hafter
      exact ⟨rfl, h⟩
    · rintro ⟨hmemory, h⟩
      refine ⟨_, _, ⟨rfl, rfl⟩, RunM.ends_memory_bind_iff.2 (RunM.ends_act_iff.2 ⟨host, h, ?_⟩)⟩
      cases hmemory
      rfl
  · rw [if_neg hdepth] at htake ⊢
    rw [(htake.bind_error _).iff, Machine.mk.injEq]
    exact and_left_comm

theorem memory_of_prepare {command : Command} {result : Except RunError Reply}
    (h : (prepare processors command).Ends machine result after) :
    after.memory = machine.memory.dropping command.takes :=
  (ends_prepare_iff.1 h).1

/-- A definition fails with its body, or leaves the entity in place of the body's result. -/
theorem ends_runEntityWith_iff {entity : Value} {body : Sequence}
    {result : Except RunError Unit} :
    (runEntityWith nested entity body).Ends machine result after ↔
      (∃ error, (nested entity body).Ends machine (.error error) after ∧
        result = .error error) ∨
      ∃ value between, (nested entity body).Ends machine (.ok value) between ∧
        if between.memory.values = [] then result = .error .stackUnderflow ∧ after = between
        else result = .ok () ∧
          after = { between with memory := (between.memory.dropping 1).push entity } := by
  unfold runEntityWith
  rw [RunM.ends_bind_iff]
  refine or_congr Iff.rfl (exists_congr fun value => exists_congr fun between => ?_)
  refine and_congr_right fun _ => ?_
  have hpop := RunM.pop_ends between
  rcases between with ⟨⟨_ | ⟨top, rest⟩, scopes, hscopes, frames⟩, host⟩
  · rw [(hpop.bind_error _).iff]
    rfl
  · have hboth : (RunM.pop >>= fun _ => RunM.push entity : RunM σ Unit).Ends _ (.ok ()) _ :=
      hpop.bind (RunM.ends_push_iff.2 ⟨rfl, rfl⟩)
    rw [hboth.iff]
    rfl

end Commands

/-! ## Single instructions -/

/-- The ways in which an instruction can end. -/
inductive StepEnds (processors : Processors σ) (nested : Nested σ) (instruction : Instruction)
    (machine : Machine σ) : Except RunError Flow → Machine σ → Prop
  | skipped (h : instruction.command? = none) :
      StepEnds processors nested instruction machine (.ok .next)
        (machine.reporting (.skipped instruction.opcode))
  | malformed {error : RunError} (h : instruction.command? = some (.error error)) :
      StepEnds processors nested instruction machine (.error error)
        (machine.reporting (.running instruction))
  | stuck {error : RunError} (h : instruction.command? = some (.ok .leave))
      (hleave : machine.memory.leave = .error error) :
      StepEnds processors nested instruction machine (.error error)
        (machine.reporting (.running instruction))
  | left {value : Value} {memory : Memory} (h : instruction.command? = some (.ok .leave))
      (hleave : machine.memory.leave = .ok (value, memory)) :
      StepEnds processors nested instruction machine (.ok .leave)
        { machine.reporting (.running instruction) with memory := memory }
  | refused {command : Command} {error : RunError} {after : Machine σ}
      (h : instruction.command? = some (.ok command)) (hcommand : command ≠ .leave)
      (hprepare : (prepare processors command).Ends (machine.reporting (.running instruction))
        (.error error) after) :
      StepEnds processors nested instruction machine (.error error) after
  | failed {command : Command} {reply : Reply} {error : RunError} {between after : Machine σ}
      (h : instruction.command? = some (.ok command)) (hcommand : command ≠ .leave)
      (hprepare : (prepare processors command).Ends (machine.reporting (.running instruction))
        (.ok reply) between)
      (hsettle : (settle nested reply).Ends between (.error error) after) :
      StepEnds processors nested instruction machine (.error error) after
  | settled {command : Command} {reply : Reply} {between after : Machine σ}
      (h : instruction.command? = some (.ok command)) (hcommand : command ≠ .leave)
      (hprepare : (prepare processors command).Ends (machine.reporting (.running instruction))
        (.ok reply) between)
      (hsettle : (settle nested reply).Ends between (.ok ()) after) :
      StepEnds processors nested instruction machine (.ok .next) after

theorem flowAfter_of_ne_leave {command : Command} (h : command ≠ .leave) :
    flowAfter command = .next := by
  cases command with
  | leave => exact absurd rfl h
  | _ => rfl

section Steps

variable {processors : Processors σ} {nested : Nested σ} {machine after : Machine σ}
  {instruction : Instruction}

theorem step_of_none (h : instruction.command? = none) :
    step processors nested instruction =
      RunM.report (.skipped instruction.opcode) >>= fun _ => pure .next := by
  unfold step
  rw [h]

theorem step_of_error {error : RunError} (h : instruction.command? = some (.error error)) :
    step processors nested instruction =
      RunM.report (.running instruction) >>= fun _ => throw error := by
  unfold step
  rw [h]
  rfl

theorem step_of_ok {command : Command} (h : instruction.command? = some (.ok command)) :
    step processors nested instruction = RunM.report (.running instruction) >>= fun _ =>
      execute processors nested command >>= fun _ => pure (flowAfter command) := by
  unfold step
  rw [h]
  rfl

theorem step_of_leave (h : instruction.command? = some (.ok .leave)) :
    step processors nested instruction = RunM.report (.running instruction) >>= fun _ =>
      RunM.attempt Memory.leave >>= fun _ => pure .leave := by
  simp only [step_of_ok h, execute, flowAfter, bind_assoc, pure_bind]

theorem step_of_command {command : Command} (h : instruction.command? = some (.ok command))
    (hcommand : command ≠ .leave) :
    step processors nested instruction = RunM.report (.running instruction) >>= fun _ =>
      prepare processors command >>= fun reply => settle nested reply >>= fun _ => pure .next := by
  simp only [step_of_ok h, execute_eq processors nested hcommand, flowAfter_of_ne_leave hcommand,
    bind_assoc]

theorem stepEnds_of_ends {result : Except RunError Flow}
    (h : (step processors nested instruction).Ends machine result after) :
    StepEnds processors nested instruction machine result after := by
  rcases hcommand? : instruction.command? with _ | error | command
  · rw [step_of_none hcommand?, RunM.ends_report_bind_iff, RunM.ends_pure_iff] at h
    obtain ⟨rfl, rfl⟩ := h
    exact .skipped hcommand?
  · rw [step_of_error hcommand?, RunM.ends_report_bind_iff, RunM.ends_throw_iff] at h
    obtain ⟨rfl, rfl⟩ := h
    exact .malformed hcommand?
  · by_cases hcommand : command = .leave
    · subst hcommand
      rw [step_of_leave hcommand?, RunM.ends_report_bind_iff, RunM.ends_bind_iff] at h
      rcases h with ⟨error, h, rfl⟩ | ⟨value, between, h, hpure⟩
      · rcases RunM.ends_attempt_iff.1 h with ⟨_, hleave, herror, rfl⟩ | ⟨_, _, _, habsurd, _⟩
        · cases herror
          exact .stuck hcommand? hleave
        · cases habsurd
      · obtain ⟨rfl, rfl⟩ := RunM.ends_pure_iff.1 hpure
        rcases RunM.ends_attempt_iff.1 h with ⟨_, _, habsurd, _⟩ | ⟨_, memory, hleave, _, rfl⟩
        · cases habsurd
        · exact .left hcommand? hleave
    · rw [step_of_command hcommand? hcommand, RunM.ends_report_bind_iff, RunM.ends_bind_iff] at h
      rcases h with ⟨error, hprepare, rfl⟩ | ⟨reply, between, hprepare, h⟩
      · exact .refused hcommand? hcommand hprepare
      · rcases RunM.ends_bind_iff.1 h with ⟨error, hsettle, rfl⟩ | ⟨_, _, hsettle, hpure⟩
        · exact .failed hcommand? hcommand hprepare hsettle
        · obtain ⟨rfl, rfl⟩ := RunM.ends_pure_iff.1 hpure
          exact .settled hcommand? hcommand hprepare hsettle

theorem StepEnds.ends {result : Except RunError Flow}
    (h : StepEnds processors nested instruction machine result after) :
    (step processors nested instruction).Ends machine result after := by
  cases h with
  | skipped h =>
    rw [step_of_none h]
    rfl
  | malformed h =>
    rw [step_of_error h]
    rfl
  | stuck h hleave =>
    rw [step_of_leave h, RunM.ends_report_bind_iff]
    refine RunM.Ends.bind_error (RunM.ends_attempt_iff.2 (Or.inl ?_)) _
    exact ⟨_, hleave, rfl, rfl⟩
  | left h hleave =>
    rw [step_of_leave h, RunM.ends_report_bind_iff]
    exact RunM.Ends.bind (RunM.ends_attempt_iff.2 (Or.inr ⟨_, _, hleave, rfl, rfl⟩)) rfl
  | refused h hcommand hprepare =>
    rw [step_of_command h hcommand, RunM.ends_report_bind_iff]
    exact hprepare.bind_error _
  | failed h hcommand hprepare hsettle =>
    rw [step_of_command h hcommand, RunM.ends_report_bind_iff]
    exact hprepare.bind (hsettle.bind_error _)
  | settled h hcommand hprepare hsettle =>
    rw [step_of_command h hcommand, RunM.ends_report_bind_iff]
    exact hprepare.bind (hsettle.bind rfl)

end Steps

/-! ## Code -/

/-- Run on `machine`, some code gets to `rest` with `after`: every instruction before `rest` was
carried out, and none of them left the body. -/
inductive Reaches (processors : Processors σ) (nested : Nested σ) :
    List Instruction → Machine σ → List Instruction → Machine σ → Prop
  | here {code : List Instruction} {machine : Machine σ} :
      Reaches processors nested code machine code machine
  | next {instruction : Instruction} {code rest : List Instruction}
      {machine between after : Machine σ}
      (hstep : (step processors nested instruction).Ends machine (.ok .next) between)
      (hreaches : Reaches processors nested code between rest after) :
      Reaches processors nested (instruction :: code) machine rest after

section Code

variable {processors : Processors σ} {nested : Nested σ} {machine between after : Machine σ}
  {code rest final : List Instruction}

theorem Reaches.trans (h₁ : Reaches processors nested code machine rest between)
    (h₂ : Reaches processors nested rest between final after) :
    Reaches processors nested code machine final after := by
  induction h₁ with
  | here => exact h₂
  | next hstep _ ih => exact .next hstep (ih h₂)

/-- What every step keeps holds wherever the code gets to. -/
theorem Reaches.invariant {P : List Instruction → Machine σ → Prop}
    (hstep : ∀ {instruction code machine after}, P (instruction :: code) machine →
      (step processors nested instruction).Ends machine (.ok .next) after → P code after)
    (h : Reaches processors nested code machine rest after) (hstart : P code machine) :
    P rest after := by
  induction h with
  | here => exact hstart
  | next hone _ ih => exact ih (hstep hstart hone)

theorem ends_runCode_cons_iff {instruction : Instruction} {result : Except RunError Unit} :
    (runCode processors nested (instruction :: code)).Ends machine result after ↔
      (∃ error, (step processors nested instruction).Ends machine (.error error) after ∧
        result = .error error) ∨
      ((step processors nested instruction).Ends machine (.ok .leave) after ∧ result = .ok ()) ∨
      ∃ between, (step processors nested instruction).Ends machine (.ok .next) between ∧
        (runCode processors nested code).Ends between result after := by
  rw [runCode, RunM.ends_bind_iff]
  refine or_congr Iff.rfl ?_
  constructor
  · rintro ⟨flow, between, hstep, h⟩
    cases flow with
    | next => exact Or.inr ⟨between, hstep, h⟩
    | leave =>
      obtain ⟨rfl, rfl⟩ := RunM.ends_pure_iff.1 h
      exact Or.inl ⟨hstep, rfl⟩
  · rintro (⟨hstep, rfl⟩ | ⟨between, hstep, h⟩)
    · exact ⟨.leave, after, hstep, rfl⟩
    · exact ⟨.next, between, hstep, h⟩

/-- A run through code goes on from wherever the code gets to. -/
theorem Reaches.ends {result : Except RunError Unit}
    (h : Reaches processors nested code machine rest between)
    (hrest : (runCode processors nested rest).Ends between result after) :
    (runCode processors nested code).Ends machine result after := by
  induction h with
  | here => exact hrest
  | next hstep _ ih => exact ends_runCode_cons_iff.2 (Or.inr (Or.inr ⟨_, hstep, ih hrest⟩))

/-- A run through code gets to the end of it, or to an instruction that fails or leaves. -/
theorem reaches_of_ends_runCode {result : Except RunError Unit}
    (h : (runCode processors nested code).Ends machine result after) :
    (Reaches processors nested code machine [] after ∧ result = .ok ()) ∨
      ∃ instruction rest between,
        Reaches processors nested code machine (instruction :: rest) between ∧
          ((∃ error, (step processors nested instruction).Ends between (.error error) after ∧
            result = .error error) ∨
          (step processors nested instruction).Ends between (.ok .leave) after ∧
            result = .ok ()) := by
  induction code generalizing machine with
  | nil =>
    obtain ⟨rfl, rfl⟩ := RunM.ends_pure_iff.1 h
    exact Or.inl ⟨.here, rfl⟩
  | cons instruction code ih =>
    rcases ends_runCode_cons_iff.1 h with hfails | hleaves | ⟨between, hstep, h⟩
    · exact Or.inr ⟨instruction, code, machine, .here, Or.inl hfails⟩
    · exact Or.inr ⟨instruction, code, machine, .here, Or.inr hleaves⟩
    · rcases ih h with ⟨hreaches, rfl⟩ | ⟨last, rest, inner, hreaches, hlast⟩
      · exact Or.inl ⟨.next hstep hreaches, rfl⟩
      · exact Or.inr ⟨last, rest, inner, .next hstep hreaches, hlast⟩

end Code

/-! ## Bodies -/

/-- The machine on which the code of a body starts: in a frame of its own, with `scope` as its
`self`. -/
def entered (machine : Machine σ) (scope : Value) (body : Sequence) : Machine σ :=
  ({ machine with memory := machine.memory.enter scope } : Machine σ).reporting (.entered body)

/-- A body is run by running its code in a frame and finishing the frame. -/
theorem ends_runInFrame_succ_iff {processors : Processors σ} {levels : Nat} {scope : Value}
    {body : Sequence} {machine after : Machine σ} {result : Except RunError Value} :
    (runInFrame processors (levels + 1) scope body).Ends machine result after ↔
      ∃ outcome inner,
        (runCode processors (runInFrame processors levels) body.code).Ends
          (machine.entered scope body) outcome inner ∧
        result = (inner.memory.finish machine.memory.frameDepth outcome).1 ∧
        after =
          { inner with memory := (inner.memory.finish machine.memory.frameDepth outcome).2 } :=
  RunM.ends_enclosed_iff

theorem not_ends_runInFrame_zero {processors : Processors σ} {scope : Value} {body : Sequence}
    {machine after : Machine σ} {result : Except RunError Value} :
    ¬ (runInFrame processors 0 scope body).Ends machine result after :=
  RunM.not_ends_tooDeep

end Machine

end ClassIndex
