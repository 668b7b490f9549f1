import ClassIndex.Proofs.Requests
import ClassIndex.Proofs.Sessions
import ClassIndex.Proofs.Soundness
import ClassIndex.Proofs.Tally
import Mathlib.Algebra.Ring.Nat

/-!
# Every instruction is handled once

Bodies are run that were taken off the stack, and an outer sequence may have put them there, so runs
do not follow the nesting of the code.  What they do follow is a count: that of the instructions not
yet run together with those of the sequences among the values.  A command takes its body out of
its own operands or off the stack, and no command doubles one, as long as no processor yields a
sequence and no scope is one.  So a run comes to an end, and the instructions that it handles are no
more than there were to begin with: `spends_step` is the step and `spends_runInFrame` the run.
-/

namespace ClassIndex

/-! ## Counting instructions -/

namespace Sequence

/-- The number of instructions in some sequences, without those nested in them. -/
def totalLength (sequences : List Sequence) : Nat :=
  (sequences.map fun s => s.code.length).sum

theorem totalLength_append (first second : List Sequence) :
    totalLength (first ++ second) = totalLength first + totalLength second := by
  simp [totalLength]

/-- The number of instructions in a sequence with all sequences in it unfolded. -/
def instructionCount (s : Sequence) : Nat :=
  totalLength s.unfold

end Sequence

namespace Instruction

/-- The number of instructions in the sequences below an instruction. -/
def innerCount (instruction : Instruction) : Nat :=
  Sequence.totalLength instruction.unfold

/-- The number of instructions of some code with all sequences in it unfolded. -/
def countAll (code : List Instruction) : Nat :=
  code.length + Sequence.totalLength (unfoldList code)

theorem countAll_cons (instruction : Instruction) (rest : List Instruction) :
    countAll (instruction :: rest) = 1 + instruction.innerCount + countAll rest := by
  rw [countAll, countAll, innerCount, unfoldList, Sequence.totalLength_append, List.length_cons]
  omega

end Instruction

theorem Sequence.instructionCount_eq (s : Sequence) :
    s.instructionCount = Instruction.countAll s.code := by
  rcases s with ⟨id, label, kind, path, code, parameters, locals⟩
  simp [instructionCount, Instruction.countAll, Sequence.unfold, totalLength]

theorem Operand.totalLength_unfold_le {operand : Operand} {operands : List Operand}
    (h : operand ∈ operands) :
    Sequence.totalLength operand.unfold ≤ Sequence.totalLength (unfoldList operands) := by
  induction h with
  | head rest =>
    rw [unfoldList, Sequence.totalLength_append]
    omega
  | tail other _ ih =>
    rw [unfoldList, Sequence.totalLength_append]
    omega

/-- The bodies that a command brings along are below its instruction. -/
theorem Instruction.instructionCount_le_innerCount {instruction : Instruction} {command : Command}
    {body : Sequence} (h : instruction.command? = some (.ok command))
    (hbody : body ∈ command.bodies) : body.instructionCount ≤ instruction.innerCount := by
  have hoperand := Operand.totalLength_unfold_le (mem_operands_of_mem_bodies h hbody)
  rw [Operand.unfold] at hoperand
  rw [innerCount, unfold_eq]
  exact hoperand

namespace Value

/-- The number of instructions in a value. -/
def instructionCount : Value → Nat
  | sequence body => body.instructionCount
  | _ => 0

theorem instructionCount_of_plain {value : Value} (h : value.sequence? = none) :
    value.instructionCount = 0 := by
  cases value with
  | sequence body => cases h
  | _ => rfl

theorem instructionCount_le {value : Value} {count : Nat}
    (h : ∀ body, value = .sequence body → body.instructionCount ≤ count) :
    value.instructionCount ≤ count := by
  cases value with
  | sequence body => exact h body rfl
  | _ => exact Nat.zero_le count

/-- The number of instructions in some values. -/
def pending (values : List Value) : Nat :=
  (values.map instructionCount).sum

theorem pending_cons (value : Value) (values : List Value) :
    pending (value :: values) = value.instructionCount + pending values := by
  simp [pending]

theorem pending_of_plain {values : List Value} (h : ∀ value ∈ values, value.sequence? = none) :
    pending values = 0 := by
  induction values with
  | nil => rfl
  | cons value rest ih =>
    rw [List.forall_mem_cons] at h
    rw [pending_cons, instructionCount_of_plain h.1, ih h.2]

theorem pending_take_add_drop (count : Nat) (values : List Value) :
    pending (values.take count) + pending (values.drop count) = pending values := by
  have hsplit := congrArg pending (List.take_append_drop count values)
  simp only [pending, List.map_append, List.sum_append] at hsplit
  exact hsplit

theorem pending_drop_le (count : Nat) (values : List Value) :
    pending (values.drop count) ≤ pending values := by
  have hsplit := pending_take_add_drop count values
  omega

theorem instructionCount_le_pending {body : Sequence} {values : List Value}
    (h : .sequence body ∈ values) : body.instructionCount ≤ pending values := by
  induction values with
  | nil => cases h
  | cons value rest ih =>
    rw [pending_cons]
    rcases List.mem_cons.1 h with rfl | hrest
    · exact Nat.le_add_right _ _
    · have hle := ih hrest
      omega

end Value

open Value (pending pending_cons pending_take_add_drop pending_drop_le instructionCount_le_pending)

namespace Memory

theorem pending_unwind_le (memory : Memory) (level : Nat) :
    pending (memory.unwind level).values ≤ pending memory.values := by
  unfold unwind
  split
  · exact Nat.le_refl _
  · exact pending_drop_le _ _

theorem pending_finish_le (memory : Memory) (level : Nat) (outcome : Except RunError Unit) :
    pending (memory.finish level outcome).2.values ≤ pending memory.values := by
  rcases outcome with error | ⟨⟩
  · exact memory.pending_unwind_le level
  · unfold finish
    rcases hleave : memory.leaveAbove level with error | left
    · exact memory.pending_unwind_le level
    · have hvalues : left.values = memory.values := by
        unfold leaveAbove at hleave
        split at hleave
        · rcases hleft : memory.leave with error | ⟨value, left'⟩
          · rw [hleft] at hleave
            cases hleave
          · rw [hleft] at hleave
            cases hleave
            exact values_of_leave hleft
        · cases hleave
          rfl
      have hunwind := left.pending_unwind_le level
      rw [hvalues] at hunwind
      dsimp only
      split
      · split
        · exact Nat.le_of_eq (congrArg pending hvalues)
        · exact hunwind
      · exact hunwind

end Memory

/-! ## Runs -/

namespace Machine

variable {σ : Type}

/-- A way to run bodies by which those with fewer than `limit` instructions before them come to an
end, and handle or leave behind no instruction that was not there. -/
def Spends (nested : Nested σ) (tally : Tally σ) (limit : Nat) : Prop :=
  ∀ (scope : Value) (body : Sequence) (machine : Machine σ), scope.sequence? = none →
    machine.memory.PlainScopes →
    body.instructionCount + pending machine.memory.values < limit →
    ∃ result after, (nested scope body).Ends machine result after ∧
      tally scope body machine + pending after.memory.values ≤
        body.instructionCount + pending machine.memory.values

section Bodies

variable {processors : Processors σ} {nested : Nested σ} {tally : Tally σ} {limit : Nat}
  {machine : Machine σ}

/-- A reply spends no more than its body. -/
theorem spends_settle (machine : Machine σ) {reply : Reply} {budget : Nat}
    (hnested : Spends nested tally limit)
    (hreply : reply.Admits fun body => body.instructionCount ≤ budget)
    (hscopes : machine.memory.PlainScopes)
    (hlimit : budget + pending machine.memory.values < limit) :
    ∃ result after, (settle nested reply).Ends machine result after ∧
      handledReply tally reply machine + pending after.memory.values ≤
        budget + pending machine.memory.values := by
  cases reply with
  | nothing =>
    refine ⟨.ok (), machine, rfl, ?_⟩
    simp [handledReply]
  | value value =>
    refine ⟨.ok (), _, RunM.ends_push_iff.2 ⟨rfl, rfl⟩, ?_⟩
    have hvalue := Value.instructionCount_le hreply
    show 0 + pending (value :: machine.memory.values) ≤ _
    rw [pending_cons]
    omega
  | definition entity body =>
    obtain ⟨hentity, hbody⟩ := hreply
    have hbelow : body.instructionCount + pending machine.memory.values < limit := by omega
    obtain ⟨result, between, hends, hspent⟩ := hnested entity body machine hentity hscopes hbelow
    show ∃ result after, _ ∧ tally entity body machine + _ ≤ _
    cases result with
    | error error =>
      refine ⟨.error error, between, ends_runEntityWith_iff.2 (Or.inl ⟨error, hends, rfl⟩), ?_⟩
      omega
    | ok value =>
      by_cases hempty : between.memory.values = []
      · refine ⟨.error .stackUnderflow, between,
          ends_runEntityWith_iff.2 (Or.inr ⟨value, between, hends, ?_⟩), ?_⟩
        · rw [if_pos hempty]
          exact ⟨rfl, rfl⟩
        · omega
      · refine ⟨.ok (), { between with memory := (between.memory.dropping 1).push entity },
          ends_runEntityWith_iff.2 (Or.inr ⟨value, between, hends, ?_⟩), ?_⟩
        · rw [if_neg hempty]
          exact ⟨rfl, rfl⟩
        · -- The entity takes the place of the result, and it is no sequence.
          have hdropped := pending_drop_le 1 between.memory.values
          show _ + pending (entity :: between.memory.values.drop 1) ≤ _
          rw [pending_cons, Value.instructionCount_of_plain hentity]
          omega

theorem plainScopes_of_step {instruction : Instruction} {after : Machine σ}
    {result : Except RunError Flow} (hframes : Balanced nested)
    (hscopes : machine.memory.PlainScopes)
    (h : (step processors nested instruction).Ends machine result after) :
    after.memory.PlainScopes := by
  cases stepEnds_of_ends h with
  | skipped _ => exact hscopes
  | malformed _ => exact hscopes
  | stuck _ _ => exact hscopes
  | left _ hleave =>
    intro scope hscope
    apply hscopes scope
    rcases hmarks : machine.memory.frames with _ | ⟨mark, rest⟩
    · rw [Memory.leave, hmarks] at hleave
      cases hleave
    · rw [Memory.leave_of_frames hmarks] at hleave
      split at hleave
      · split at hleave
        · cases hleave
        · cases hleave
          exact List.mem_of_mem_drop hscope
      · cases hleave
  | refused _ _ hprepare =>
    rw [memory_of_prepare hprepare]
    exact hscopes
  | failed _ _ hprepare hsettle | settled _ _ hprepare hsettle =>
    intro scope hscope
    rw [(sameFrames_of_settle hframes hsettle).scopes, memory_of_prepare hprepare] at hscope
    exact hscopes scope hscope

theorem exists_ends_prepare (processors : Processors σ) (command : Command)
    (machine : Machine σ) :
    ∃ result after, (prepare processors command).Ends machine result after := by
  by_cases htakes : command.takes ≤ machine.memory.depth
  · rcases hperform : (command.perform processors machine.memory.self machine.memory.root
      (machine.memory.values.take command.takes)).run.run machine.host with ⟨outcome, host⟩
    refine ⟨outcome, ⟨machine.memory.dropping command.takes, host⟩,
      ends_prepare_iff.2 ⟨rfl, ?_⟩⟩
    rw [if_pos htakes]
    exact hperform
  · refine ⟨.error .stackUnderflow, ⟨machine.memory.dropping command.takes, machine.host⟩,
      ends_prepare_iff.2 ⟨rfl, ?_⟩⟩
    rw [if_neg htakes]
    exact ⟨rfl, rfl⟩

/-- The body in a reply is below the instruction, or it was among the values that were taken. -/
theorem admits_of_prepare {instruction : Instruction} {command : Command} {reply : Reply}
    {event : Event} {between : Machine σ} (hprocessors : processors.NoSequences)
    (hdecoded : instruction.command? = some (.ok command)) (hcommand : command ≠ .leave)
    (hscopes : machine.memory.PlainScopes)
    (h : (prepare processors command).Ends (machine.reporting event) (.ok reply) between) :
    reply.Admits fun body => body.instructionCount ≤
      instruction.innerCount + pending (machine.memory.values.take command.takes) := by
  obtain ⟨-, hperform⟩ := ends_prepare_iff.1 h
  split at hperform
  · rename_i htakes
    have hlength : (machine.memory.values.take command.takes).length = command.takes := by
      rw [List.length_take]
      exact Nat.min_eq_left htakes
    refine (Command.perform_outcome hprocessors hscopes.self hscopes.root hcommand hlength ?_ ?_
      hperform).2
    · intro body hbody
      have hinner := Instruction.instructionCount_le_innerCount hdecoded hbody
      omega
    · intro body hbody
      have htaken := instructionCount_le_pending hbody
      omega
  · cases hperform.1

section Step

variable {instruction : Instruction}

theorem spends_step_leave (hdecoded : instruction.command? = some (.ok .leave)) :
    ∃ result after, (step processors nested instruction).Ends machine result after ∧
      handledStep processors tally instruction machine + pending after.memory.values ≤
        1 + instruction.innerCount + pending machine.memory.values := by
  rcases hleave : machine.memory.leave with error | ⟨value, left⟩
  · refine ⟨_, _, (StepEnds.stuck hdecoded hleave).ends, ?_⟩
    rw [handledStep_of_leave hdecoded, memory_reporting]
    omega
  · refine ⟨_, _, (StepEnds.left hdecoded hleave).ends, ?_⟩
    have hvalues := Memory.values_of_leave hleave
    show _ + pending left.values ≤ _
    rw [handledStep_of_leave hdecoded, hvalues]
    omega

/-- The values that a command takes pay for the body in its reply. -/
theorem spends_step_command {command : Command} (hprocessors : processors.NoSequences)
    (hnested : Spends nested tally limit) (hscopes : machine.memory.PlainScopes)
    (hdecoded : instruction.command? = some (.ok command)) (hcommand : command ≠ .leave)
    (hlimit : instruction.innerCount + pending machine.memory.values < limit) :
    ∃ result after, (step processors nested instruction).Ends machine result after ∧
      handledStep processors tally instruction machine + pending after.memory.values ≤
        1 + instruction.innerCount + pending machine.memory.values := by
  obtain ⟨outcome, between, hprepare⟩ := exists_ends_prepare processors command
    (machine.reporting (.running instruction))
  have hmemory := memory_of_prepare hprepare
  have hsplit := pending_take_add_drop command.takes machine.memory.values
  have hvalues : between.memory.values = machine.memory.values.drop command.takes :=
    congrArg Memory.values hmemory
  cases outcome with
  | error error =>
    refine ⟨_, _, (StepEnds.refused hdecoded hcommand hprepare).ends, ?_⟩
    rw [handledStep_of_refused hdecoded hprepare, hvalues]
    omega
  | ok reply =>
    have hreply := admits_of_prepare hprocessors hdecoded hcommand hscopes hprepare
    have hplain : between.memory.PlainScopes := by
      rw [hmemory]
      exact hscopes
    have hbudget : instruction.innerCount + pending (machine.memory.values.take command.takes) +
        pending between.memory.values < limit := by
      rw [hvalues]
      omega
    obtain ⟨result, after, hsettle, hspent⟩ :=
      spends_settle between hnested hreply hplain hbudget
    rw [hvalues] at hspent
    cases result with
    | error error =>
      refine ⟨_, _, (StepEnds.failed hdecoded hcommand hprepare hsettle).ends, ?_⟩
      rw [handledStep_of_reply hdecoded hprepare]
      omega
    | ok _ =>
      refine ⟨_, _, (StepEnds.settled hdecoded hcommand hprepare hsettle).ends, ?_⟩
      rw [handledStep_of_reply hdecoded hprepare]
      omega

end Step

/-- An instruction comes to an end, and spends itself and what is below it at most. -/
theorem spends_step (hprocessors : processors.NoSequences) (hnested : Spends nested tally limit)
    (instruction : Instruction) (hscopes : machine.memory.PlainScopes)
    (hlimit : instruction.innerCount + pending machine.memory.values < limit) :
    ∃ result after, (step processors nested instruction).Ends machine result after ∧
      handledStep processors tally instruction machine + pending after.memory.values ≤
        1 + instruction.innerCount + pending machine.memory.values := by
  rcases hdecoded : instruction.command? with _ | error | command
  · refine ⟨_, _, (StepEnds.skipped hdecoded).ends, ?_⟩
    rw [handledStep_of_none hdecoded, memory_reporting]
    omega
  · refine ⟨_, _, (StepEnds.malformed hdecoded).ends, ?_⟩
    rw [handledStep_of_error hdecoded, memory_reporting]
    omega
  · by_cases hcommand : command = .leave
    · subst hcommand
      exact spends_step_leave hdecoded
    · exact spends_step_command hprocessors hnested hscopes hdecoded hcommand hlimit

/-- Code comes to an end, and spends no more than its own instructions. -/
theorem spends_runCode (hprocessors : processors.NoSequences) (hnested : Spends nested tally limit)
    (hframes : Balanced nested) (code : List Instruction) (hscopes : machine.memory.PlainScopes)
    (hlimit : Instruction.countAll code + pending machine.memory.values ≤ limit) :
    ∃ outcome after, (runCode processors nested code).Ends machine outcome after ∧
      handledCode processors nested tally code machine + pending after.memory.values ≤
        Instruction.countAll code + pending machine.memory.values := by
  induction code generalizing machine with
  | nil =>
    refine ⟨.ok (), machine, rfl, ?_⟩
    rw [handledCode]
    omega
  | cons instruction rest ih =>
    rw [Instruction.countAll_cons] at hlimit ⊢
    obtain ⟨result, between, hstep, hspent⟩ :=
      spends_step hprocessors hnested instruction hscopes (by omega)
    rcases result with error | _ | _
    · refine ⟨_, _, ends_runCode_cons_iff.2 (Or.inl ⟨error, hstep, rfl⟩), ?_⟩
      rw [handledCode_of_stop hstep (by simp)]
      omega
    · have hplain := plainScopes_of_step hframes hscopes hstep
      obtain ⟨outcome, after, hrest, hothers⟩ := ih hplain (by omega)
      refine ⟨outcome, after, ends_runCode_cons_iff.2 (Or.inr (Or.inr ⟨between, hstep, hrest⟩)), ?_⟩
      rw [handledCode_of_next hstep]
      omega
    · refine ⟨_, _, ends_runCode_cons_iff.2 (Or.inr (Or.inl ⟨hstep, rfl⟩)), ?_⟩
      rw [handledCode_of_stop hstep (by simp)]
      omega

end Bodies

/-- Bodies come to an end if they may go down as deep as there are instructions, and spend no more
than those. -/
theorem spends_runInFrame {processors : Processors σ} (hprocessors : processors.NoSequences)
    (levels : Nat) :
    Spends (runInFrame processors levels) (handledIn processors levels) levels := by
  induction levels with
  | zero => exact fun _ _ _ _ _ hlimit => absurd hlimit (Nat.not_lt_zero _)
  | succ levels ih =>
    intro scope body machine hscope hscopes hlimit
    have hplain : (machine.entered scope body).memory.PlainScopes :=
      (inside_entered machine scope body).plainScopes hscopes hscope
    have hvalues : (machine.entered scope body).memory.values = machine.memory.values := rfl
    rw [body.instructionCount_eq] at hlimit ⊢
    obtain ⟨outcome, inner, hcode, hspent⟩ := spends_runCode hprocessors ih
      (balanced_runInFrame processors levels) body.code hplain (by rw [hvalues]; omega)
    have hfinish := inner.memory.pending_finish_le machine.memory.frameDepth outcome
    refine ⟨_, _, ends_runInFrame_succ_iff.2 ⟨outcome, inner, hcode, rfl, rfl⟩, ?_⟩
    rw [hvalues] at hspent
    show handledCode _ _ _ _ _ + pending (inner.memory.finish _ outcome).2.values ≤ _
    omega

/-- The run comes to an end and handles at most `limit` instructions: `handled` of them, and as many
are reported if the processors report none. -/
structure EndsWithin {α : Type} (processors : Processors σ) (run : RunM σ α) (machine : Machine σ)
    (handled limit : Nat) : Prop where
  ends : ∃ result after, run.Ends machine result after
  handled_le : handled ≤ limit
  reported : processors.Quiet → ∀ result after, run.Ends machine result after →
    after.host.runningCount = machine.host.runningCount + handled

theorem endsWithin_runInFrame {processors : Processors σ} (hprocessors : processors.NoSequences)
    {levels : Nat} {scope : Value} {body : Sequence} {machine : Machine σ}
    (hscope : scope.sequence? = none) (hscopes : machine.memory.PlainScopes)
    (hlevels : body.instructionCount + pending machine.memory.values < levels) :
    EndsWithin processors (runInFrame processors levels scope body) machine
      (handledIn processors levels scope body machine)
      (body.instructionCount + pending machine.memory.values) := by
  obtain ⟨result, after, hends, hspent⟩ :=
    spends_runInFrame hprocessors levels scope body machine hscope hscopes hlevels
  refine ⟨⟨result, after, hends⟩, by omega, ?_⟩
  intro hquiet result after hends
  exact runningCount_of_runInFrame hquiet levels _ _ _ _ _ hends

theorem endsWithin_run {processors : Processors σ} (hprocessors : processors.NoSequences)
    {levels : Nat} {body : Sequence} {machine : Machine σ} (hscopes : machine.memory.PlainScopes)
    (hlevels : body.instructionCount + pending machine.memory.values < levels) :
    EndsWithin processors (run processors levels body) machine
      (handledCode processors (runInFrame processors levels) (handledIn processors levels)
        body.code (machine.reporting (.entered body)))
      (body.instructionCount + pending machine.memory.values) := by
  rw [body.instructionCount_eq] at hlevels ⊢
  have hplain : (machine.reporting (.entered body)).memory.PlainScopes := hscopes
  obtain ⟨outcome, after, hcode, hspent⟩ := spends_runCode hprocessors
    (spends_runInFrame hprocessors levels) (balanced_runInFrame processors levels) body.code hplain
    (Nat.le_of_lt hlevels)
  rw [memory_reporting] at hspent
  refine ⟨⟨outcome, after, RunM.ends_report_bind_iff.2 hcode⟩, by omega, ?_⟩
  intro hquiet result after hends
  have hentered : (machine.reporting (.entered body)).host.runningCount =
      machine.host.runningCount :=
    Host.runningCount_reporting _ _
  have hcode : (runCode processors (runInFrame processors levels) body.code).Ends
      (machine.reporting (.entered body)) result after :=
    RunM.ends_report_bind_iff.1 hends
  rw [runningCount_of_runCode hquiet (runningCount_of_runInFrame hquiet levels) hcode, hentered]

/-- If no processor yields a sequence and no scope is one, every sequence comes to an end, in the
open frame, in one of its own and at the top level, whatever is on the stack.  The instructions that
are handled on the way are at most those of the sequence with all sequences in it unfolded and those
of the sequences on the stack. -/
theorem runs_end_and_handle_once {processors : Processors σ}
    (hprocessors : processors.NoSequences) {self : Value} {body : Sequence} {machine : Machine σ}
    {levels : Nat} (hself : self.sequence? = none)
    (hscopes : ∀ scope ∈ machine.memory.scopes, scope.sequence? = none)
    (hlevels : body.instructionCount + pending machine.memory.values < levels) :
    EndsWithin processors (run processors levels body) machine
      (handledCode processors (runInFrame processors levels) (handledIn processors levels)
        body.code (machine.reporting (.entered body)))
      (body.instructionCount + pending machine.memory.values) ∧
    EndsWithin processors (runInFrame processors levels self body) machine
      (handledIn processors levels self body machine)
      (body.instructionCount + pending machine.memory.values) ∧
    EndsWithin processors (runProgram processors levels body) machine
      (handledIn processors levels machine.memory.root body machine)
      (body.instructionCount + pending machine.memory.values) := by
  refine ⟨endsWithin_run hprocessors hscopes hlevels,
    endsWithin_runInFrame hprocessors hself hscopes hlevels, ?_⟩
  have hroot := Memory.PlainScopes.root hscopes
  obtain ⟨hends, hhandled, hreported⟩ :=
    endsWithin_runInFrame hprocessors hroot hscopes hlevels
  exact ⟨hends, hhandled, hreported⟩

/-- Defines a method from the body and the name that stand on the stack. -/
def definitionFromStack : Sequence :=
  ((Sequence.start "<main>" .top).call "define_method" 2).leave

/-- A machine with a body and a name on its stack. -/
def withBodyOnStack : Machine Unit :=
  ⟨((Memory.ofRoot .nil).push (.literal (.symbol "create"))).push (.sequence Demo.create),
    ⟨(), #[]⟩⟩

/-- A body that stands on the stack is run once: two instructions define a method from it, and two
more are its own. -/
theorem runs_end_and_handle_once_stacked :
    (∃ result after,
      (runProgram Processors.empty 5 definitionFromStack).Ends withBodyOnStack result after ∧
        after.host.runningCount = 4) ∧
    definitionFromStack.instructionCount + pending withBodyOnStack.memory.values = 4 := by
  have hprocessors : (Processors.empty : Processors Unit).NoSequences := by
    intro opcode qualifier entry hentry
    cases qualifier <;> cases hentry
  have hquiet : (Processors.empty : Processors Unit).Quiet := by
    intro opcode qualifier values host outcome after h
    have hfind : (Processors.empty : Processors Unit).find? opcode qualifier = none := by
      cases qualifier <;> rfl
    rw [Processors.dispatch, hfind] at h
    cases h
    exact Host.runningCount_reporting _ _
  have hscopes : ∀ scope ∈ withBodyOnStack.memory.scopes, scope.sequence? = none := by
    intro scope hscope
    rw [List.mem_singleton.1 hscope]
    rfl
  have hlevels :
      definitionFromStack.instructionCount + pending withBodyOnStack.memory.values < 5 := by
    decide +kernel
  obtain ⟨-, -, ⟨result, after, hends⟩, -, hreported⟩ :=
    runs_end_and_handle_once hprocessors (show Value.nil.sequence? = none from rfl) hscopes hlevels
  refine ⟨⟨result, after, hends, ?_⟩, by decide +kernel⟩
  rw [hreported hquiet _ _ hends]
  decide +kernel

end Machine

/-- An indexer without sequences on its stacks indexes every sequence to an end, if bodies may nest
as deep as there are instructions. -/
theorem Indexing.exists_ends_of_plain {levels : Nat} {body : Sequence} {machine : Machine Model}
    (hvalues : ∀ value ∈ machine.memory.values, value.sequence? = none)
    (hscopes : machine.memory.PlainScopes) (hlevels : body.instructionCount < levels) :
    ∃ result after, (index levels body).Ends machine result after := by
  have hcount : body.instructionCount + pending machine.memory.values < levels := by
    rw [Value.pending_of_plain hvalues]
    exact hlevels
  obtain ⟨result, after, hends⟩ := (Machine.endsWithin_runInFrame
    Declarations.noSequences_processors hscopes.root hscopes hcount).ends
  exact ⟨result, after, ends_index_iff.2 hends⟩

end ClassIndex
