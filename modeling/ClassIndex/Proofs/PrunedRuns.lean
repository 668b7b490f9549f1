import ClassIndex.Program.Demo
import ClassIndex.Proofs.Pruning
import ClassIndex.Proofs.Simulation
import ClassIndex.Proofs.Termination
import ClassIndex.Proofs.Transitions

/-!
# Pruned code is indexed alike

A sequence and the pruned one are indexed alike, by indexers on the same model: they stop with the
same error or with the same value, and leave the same stacks and the same model (`index_prune`).
Where there are sequences on the stacks, those of the second indexer are pruned.

Both runs are followed side by side.  The first one passes over what the second one does not have
(`of_step_isIdle`) and stops at the first `leave`, as the second one does; at all other
instructions both ask for the same command (`follows_step_prune`).
-/

namespace ClassIndex

open Declarations (processors)

section

variable (title : Sequence → Title)

/-! ## Errands -/

/-- The reply with the sequences in it pruned. -/
def Reply.prune : Reply → Reply
  | nothing => nothing
  | value given => value (given.prune title)
  | definition entity body => definition (entity.prune title) (body.prune title)

theorem Reply.prune_ofMethod (method : Value) (body : Option Sequence) :
    (ofMethod method body).prune title =
      ofMethod (method.prune title) (body.map (Sequence.prune title)) := by
  cases body <;> rfl

/-- The second errand is the first one with the sequences in it pruned. -/
inductive Errand.Prunes : Errand → Errand → Prop
  | answer (reply : Reply) : Prunes (.answer reply) (.answer (reply.prune title))
  | ignore (method : String) : Prunes (.ignore method) (.ignore method)
  | declare {opcode : Opcode} {qualifier : Option String} {values : List Value}
      {reply reply' : Value → Reply}
      (hreply : ∀ value, reply' (value.prune title) = (reply value).prune title) :
      Prunes (.declare opcode qualifier values reply)
        (.declare opcode qualifier (values.map (Value.prune title)) reply')

theorem Command.errand_prune (self root : Value) {command : Command} {taken : List Value}
    (hlength : taken.length = command.takes) :
    Errand.Prunes title (command.errand self root taken)
      ((command.prune title).errand (self.prune title) (root.prune title)
        (taken.map (Value.prune title))) := by
  cases command with
  | push value => exact .answer (.value value)
  | pushSelf => exact .answer (.value self)
  | pushRoot => exact .answer (.value root)
  | ignoreCall method => exact .ignore method
  | leave | discard => exact .answer .nothing
  | refresh =>
    obtain ⟨value, rfl⟩ := List.length_eq_one_iff.1 hlength
    exact .answer (.value value)
  | readConstant name =>
    obtain ⟨enclosing, rfl⟩ := List.length_eq_one_iff.1 hlength
    exact .declare fun _ => rfl
  | defineClass name body flags =>
    obtain ⟨superclass, enclosing, rfl⟩ := List.length_eq_two.1 hlength
    exact .declare fun _ => rfl
  | defineMethod side =>
    cases side with
    | instanceSide =>
      obtain ⟨body, name, rfl⟩ := List.length_eq_two.1 hlength
      refine .declare fun method => ?_
      rw [Reply.prune_ofMethod, Value.sequence?_prune]
    | classSide =>
      obtain ⟨body, name, receiver, rfl⟩ := List.length_eq_three.1 hlength
      refine .declare fun method => ?_
      rw [Reply.prune_ofMethod, Value.sequence?_prune]
  | defineFromBlock side block =>
    obtain ⟨name, receiver, rfl⟩ := List.length_eq_two.1 hlength
    simp only [prune, errand, List.map_cons, List.map_nil, ← Value.prune_ofSequence?]
    exact .declare fun method => (Reply.prune_ofMethod title method block).symm
  | findMethod side =>
    obtain ⟨name, receiver, rfl⟩ := List.length_eq_two.1 hlength
    exact .declare fun _ => rfl
  | mixIn kind =>
    obtain ⟨source, receiver, rfl⟩ := List.length_eq_two.1 hlength
    exact .declare fun _ => rfl

/-- The host does the same for both errands. -/
theorem Errand.run_prune {errand errand' : Errand} (h : Errand.Prunes title errand errand')
    {host other after : Host Model} {outcome : Except RunError Reply}
    (hstate : other.state = host.state)
    (hrun : (errand.run processors).run.run host = (outcome, after)) :
    ∃ after', (errand'.run processors).run.run other =
        (outcome.map (Reply.prune title), after') ∧ after'.state = after.state := by
  cases h with
  | answer reply =>
    cases hrun
    exact ⟨other, rfl, hstate⟩
  | ignore method =>
    cases hrun
    exact ⟨_, rfl, hstate⟩
  | @declare opcode qualifier values reply reply' hreply =>
    rw [run_declare] at hrun
    rcases hdispatch : (processors.dispatch opcode qualifier values).run.run host with
      ⟨answer, between⟩
    obtain ⟨hplain, after', hrun', hafter'⟩ :=
      Declarations.dispatch_prune title hstate hdispatch
    refine ⟨after', ?_, ?_⟩
    · rw [run_declare, hrun']
      rw [hdispatch] at hrun
      cases answer with
      | error error =>
        cases hrun
        rfl
      | ok value =>
        cases hrun
        -- The answer is no sequence, so it is its own pruned form.
        have hvalue : value.prune title = value := Except.ok.inj hplain
        show (Except.ok (reply' value), after') = (Except.ok ((reply value).prune title), after')
        rw [← hreply, hvalue]
    · rw [hafter']
      rw [hdispatch] at hrun
      cases answer <;> cases hrun <;> rfl

/-! ## Runs -/

/-- Two indexers on the same model, where the sequences among the values of the second one are
pruned. -/
def Simulation.pruning : Simulation Model Model where
  Hosts host other := other.state = host.state
  Values _ _ value value' := value' = value.prune title
  Followed _ := True

end

theorem forall₂_eq_map_iff {α β : Type} {f : α → β} {first : List α} {second : List β} :
    List.Forall₂ (fun value value' => value' = f value) first second ↔ second = first.map f := by
  constructor
  · intro h
    induction h with
    | nil => rfl
    | cons hhead _ ih => rw [hhead, ih, List.map_cons]
  · rintro rfl
    exact List.forall₂_map_right_iff.2 (List.forall₂_same.2 fun _ _ => rfl)

namespace Simulation

open Machine

variable {title : Sequence → Title} {machine other : Machine Model}

theorem later_of_state {host host' other other' : Host Model} (h : other'.state = host'.state) :
    (pruning title).Later host other host' other' :=
  ⟨h, fun _ _ hvalue => hvalue⟩

/-- What is reported does not matter. -/
theorem follows_reports {α β : Type} {R : Host Model → Host Model → α → β → Prop}
    {event event' : Event} {next : Unit → RunM Model α} {next' : Unit → RunM Model β}
    (h : (pruning title).Follows [] R (next ()) (next' ()) (machine.reporting event)
      (other.reporting event')) :
    (pruning title).Follows [] R (RunM.report event >>= next) (RunM.report event' >>= next') machine
      other := by
  intro result after hends hfollowed hwithin
  obtain ⟨result', after', hends', hending⟩ :=
    h result after (RunM.ends_report_bind_iff.1 hends) hfollowed hwithin
  refine ⟨result', after', RunM.ends_report_bind_iff.2 hends', ?_⟩
  cases hending with
  | together houtcomes hmachines _ =>
    exact .together houtcomes hmachines (later_of_state hmachines.hosts)
  | stopped _ hstopped => exact hstopped.elim

theorem follows_prepare_prune (h : (pruning title).Machines [] machine other) (command : Command) :
    (pruning title).Follows [] (fun _ _ reply reply' => reply' = reply.prune title)
      (prepare processors command) (prepare processors (command.prune title)) machine other := by
  refine follows_prepare_of_errand (fun _ => rfl) h (Command.takes_prune title command) ?_
  intro outcome after htakes hrun _ _
  have htaken := forall₂_eq_map_iff.1 (h.memory.forall₂_take htakes)
  have herrand := Command.errand_prune title machine.memory.self machine.memory.root
    (show (machine.memory.values.take command.takes).length = command.takes by
      rw [List.length_take]
      exact Nat.min_eq_left htakes)
  obtain ⟨after', hrun', hafter'⟩ := Errand.run_prune title herrand h.hosts hrun
  refine ⟨outcome.map (Reply.prune title), after', ?_, Or.inl ⟨?_, later_of_state hafter'⟩⟩
  · rw [htaken, show other.memory.self = _ from h.memory.self,
      show other.memory.root = _ from h.memory.root]
    exact hrun'
  · cases outcome with
    | ok reply => exact .ok rfl
    | error error => exact .error error

/-- Two ways to run bodies, of which the second one follows the first one with a pruned body. -/
def NestsPruned (title : Sequence → Title) (nested nested' : Nested Model) : Prop :=
  ∀ scope body machine other, (pruning title).Machines [] machine other →
    (pruning title).Follows [] (pruning title).Values (nested scope body)
      (nested' (scope.prune title) (body.prune title)) machine other

section Bodies

variable {nested nested' : Nested Model}

theorem follows_settle_prune (hnested : NestsPruned title nested nested')
    (h : (pruning title).Machines [] machine other) (reply : Reply) :
    (pruning title).Follows [] (fun _ _ _ _ => True) (settle nested reply)
      (settle nested' (reply.prune title)) machine other := by
  cases reply with
  | nothing => exact follows_pure h trivial
  | value value => exact follows_push h rfl
  | definition entity body =>
    exact follows_runEntityWith (fun _ => rfl) rfl (hnested entity body machine other h)

/-- What is left of the code is followed step by step.  A `leave` leaves both bodies. -/
theorem follows_step_prune (hnested : NestsPruned title nested nested')
    (h : (pruning title).Machines [] machine other) {instruction : Instruction}
    (hidle : instruction.isIdle = false) :
    (pruning title).Follows []
      (fun _ _ flow flow' => flow' = flow ∧ (instruction.opcode = .leave → flow = .leave))
      (step processors nested instruction)
      (step processors nested' (instruction.prune title)) machine other := by
  have hreporting (event event' : Event) :
      (pruning title).Machines [] (machine.reporting event) (other.reporting event') :=
    ⟨h.hosts, h.memory⟩
  have hleave : instruction.opcode = .leave → instruction.command? = some (.ok .leave) := by
    intro hopcode
    unfold Instruction.command?
    rw [hopcode]
  have hcommand?' := Instruction.command?_prune title hidle
  rcases hcommand? : instruction.command? with _ | error | command <;>
    rw [hcommand?] at hcommand?' hleave
  · rw [step_of_none hcommand?, step_of_none hcommand?']
    refine follows_reports (follows_pure (hreporting _ _) ⟨rfl, fun hopcode => ?_⟩)
    cases hleave hopcode
  · rw [step_of_error hcommand?, step_of_error hcommand?']
    refine follows_reports ?_
    intro result after hends _ _
    obtain ⟨rfl, rfl⟩ := RunM.ends_throw_iff.1 hends
    exact ⟨_, _, rfl, .together (.error error) (hreporting _ _) (later_of_state h.hosts)⟩
  · by_cases hcommand : command = .leave
    · subst hcommand
      rw [step_of_leave hcommand?, step_of_leave hcommand?']
      refine follows_reports (Follows.bind (follows_leave (hreporting _ _)) (fun _ h => h) ?_)
      exact fun hmachines _ => follows_pure hmachines ⟨rfl, fun _ => rfl⟩
    · have hcommand' : command.prune title ≠ .leave :=
        fun heq => hcommand ((Command.prune_eq_leave_iff title).1 heq)
      rw [step_of_command hcommand? hcommand, step_of_command hcommand?' hcommand']
      refine follows_reports (Follows.bind (follows_prepare_prune (hreporting _ _) command)
        (fun _ h => h) ?_)
      rintro reply _ between between' hmachines rfl
      refine Follows.bind (follows_settle_prune hnested hmachines reply) (fun _ h => h) ?_
      refine fun hsettled _ => follows_pure hsettled ⟨rfl, fun hopcode => ?_⟩
      exact absurd (Except.ok.inj (Option.some.inj (hleave hopcode))) hcommand

/-- What is dropped has no effect but for what it reports. -/
theorem of_step_isIdle {instruction : Instruction} (hidle : instruction.isIdle = true)
    {result : Except RunError Flow} {after : Machine Model}
    (hends : (step processors nested instruction).Ends machine result after) :
    result = .ok .next ∧ after.memory = machine.memory ∧
      after.host.state = machine.host.state := by
  rcases Instruction.command?_of_isIdle hidle with hcommand? | ⟨method, hcommand?⟩
  · rw [step_of_none hcommand?, RunM.ends_report_bind_iff, RunM.ends_pure_iff] at hends
    obtain ⟨rfl, rfl⟩ := hends
    exact ⟨rfl, rfl, rfl⟩
  · rw [step_of_ok hcommand?, RunM.ends_report_bind_iff, execute, RunM.ends_report_bind_iff,
      RunM.ends_pure_iff] at hends
    obtain ⟨rfl, rfl⟩ := hends
    exact ⟨rfl, rfl, rfl⟩

theorem follows_runCode_prune (hnested : NestsPruned title nested nested')
    (h : (pruning title).Machines [] machine other) (code : List Instruction) :
    (pruning title).Follows [] (fun _ _ _ _ => True) (runCode processors nested code)
      (runCode processors nested' (Instruction.pruneAll title code)) machine other := by
  induction code generalizing machine other with
  | nil =>
    rw [Instruction.pruneAll]
    exact follows_pure h trivial
  | cons instruction rest ih =>
    rw [Instruction.pruneAll]
    by_cases hidle : instruction.isIdle = true
    · -- Only the first machine moves, so this is no case for `Follows.bind`.
      rw [if_pos hidle]
      intro result after hends hfollowed hwithin
      rcases ends_runCode_cons_iff.1 hends with
        ⟨error, hstep, -⟩ | ⟨hstep, -⟩ | ⟨between, hstep, hrest⟩
      · cases (of_step_isIdle hidle hstep).1
      · cases (of_step_isIdle hidle hstep).1
      · obtain ⟨-, hmemory, hstate⟩ := of_step_isIdle hidle hstep
        have hbetween : (pruning title).Machines [] between other :=
          ⟨h.hosts.trans hstate.symm, hmemory ▸ h.memory⟩
        obtain ⟨result', after', hends', hending⟩ :=
          ih hbetween result after hrest hfollowed hwithin
        refine ⟨result', after', hends', ?_⟩
        cases hending with
        | together houtcomes hmachines _ =>
          exact .together houtcomes hmachines (later_of_state hmachines.hosts)
        | stopped _ hstopped => exact hstopped.elim
    · rw [if_neg hidle]
      have hstep := follows_step_prune hnested h (Bool.not_eq_true _ ▸ hidle)
      split
      · -- The first machine has code left, but does not get to it.
        rename_i hleave
        refine hstep.bind (fun _ h => h) ?_
        rintro flow flow' between between' hmachines ⟨rfl, hflow⟩
        rw [hflow hleave]
        exact follows_pure hmachines trivial
      · refine hstep.bind (fun _ h => h) ?_
        rintro flow flow' between between' hmachines ⟨hsame, -⟩
        subst hsame
        cases flow' with
        | next => exact ih hmachines
        | leave => exact follows_pure hmachines trivial

end Bodies

theorem nestsPruned_runInFrame (title : Sequence → Title) (levels : Nat) :
    NestsPruned title (runInFrame processors levels) (runInFrame processors levels) := by
  induction levels with
  | zero =>
    intro scope body machine other _ result after hends
    exact absurd hends not_ends_runInFrame_zero
  | succ levels ih =>
    intro scope body machine other h
    have hentered : (pruning title).Machines [] (machine.entered scope body)
        (other.entered (scope.prune title) (body.prune title)) :=
      ⟨h.hosts, h.memory.enter rfl⟩
    refine follows_runInFrame_succ (fun _ => rfl) h (later_of_state h.hosts) ?_
    rw [Sequence.code_prune]
    exact follows_runCode_prune ih hentered body.code

end Simulation

/-! ## Indexing -/

namespace Memory

/-- The memory with the sequences in it pruned. -/
def prune (title : Sequence → Title) (memory : Memory) : Memory :=
  { memory with
    values := memory.values.map (Value.prune title)
    scopes := memory.scopes.map (Value.prune title)
    scopes_ne_nil := List.map_eq_nil_iff.not.2 memory.scopes_ne_nil }

variable {title : Sequence → Title} {memory : Memory}

theorem alike_prune_iff {other : Memory} :
    memory.Alike (fun value value' => value' = value.prune title) [] other ↔
      other = memory.prune title := by
  constructor
  · intro h
    obtain ⟨upper, hvalues, hupper⟩ := h.values
    rw [List.append_nil, forall₂_eq_map_iff.1 hupper] at hvalues
    exact ext_stacks hvalues (forall₂_eq_map_iff.1 h.scopes) (h.frames.trans (List.map_id' _))
  · rintro rfl
    exact ⟨⟨_, (List.append_nil _).symm, forall₂_eq_map_iff.2 rfl⟩, forall₂_eq_map_iff.2 rfl,
      (List.map_id' _).symm⟩

/-- Without sequences there is nothing to prune. -/
theorem prune_of_plain (hvalues : ∀ value ∈ memory.values, value.sequence? = none)
    (hscopes : ∀ scope ∈ memory.scopes, scope.sequence? = none) : memory.prune title = memory := by
  have hmap {stack : List Value} (h : ∀ value ∈ stack, value.sequence? = none) :
      stack.map (Value.prune title) = stack := by
    rw [List.map_congr_left fun value hvalue => Value.prune_of_sequence? title (h value hvalue),
      List.map_id']
  exact ext_stacks (hmap hvalues) (hmap hscopes) rfl

end Memory

namespace Indexing

variable {levels : Nat} {body : Sequence} {machine other after : Machine Model}
  {result : Except RunError Value}

/-- A pruned sequence is indexed alike on a memory that is pruned too. -/
theorem ends_index_prune (title : Sequence → Title)
    (h : (index levels body).Ends machine result after)
    (hstate : other.host.state = machine.host.state)
    (hmemory : other.memory = machine.memory.prune title) :
    ∃ after', (index levels (body.prune title)).Ends other (result.map (Value.prune title)) after' ∧
      after'.memory = after.memory.prune title ∧ after'.host.state = after.host.state := by
  have halike := Memory.alike_prune_iff.2 hmemory
  obtain ⟨result', after', hends', hending⟩ := Simulation.nestsPruned_runInFrame title levels _ body
    machine other ⟨hstate, halike⟩ result after (ends_index_iff.1 h) (fun _ _ => trivial) trivial
  cases hending with
  | together houtcomes hmachines _ =>
    have hresult : result' = result.map (Value.prune title) := by
      cases houtcomes with
      | ok hvalue => exact congrArg Except.ok hvalue
      | error error => rfl
    subst hresult
    refine ⟨after', ends_index_iff.2 ?_, Memory.alike_prune_iff.1 hmachines.memory,
      hmachines.hosts⟩
    rw [show other.memory.root = _ from halike.root]
    exact hends'
  | stopped _ hstopped => exact hstopped.elim

/-- On an indexer without sequences on its stacks, a sequence comes to an end, and the pruned one
does so with the same error or with the same result, and on the same stacks, if the sequences in
them are pruned.  The model is the same. -/
theorem index_prune (title : Sequence → Title) (levels : Nat) (body : Sequence)
    (machine : Machine Model) (hvalues : ∀ value ∈ machine.memory.values, value.sequence? = none)
    (hscopes : ∀ scope ∈ machine.memory.scopes, scope.sequence? = none) :
    (body.instructionCount < levels →
      ∃ result after, (index levels body).Ends machine result after) ∧
    ∀ result after, (index levels body).Ends machine result after →
      ∃ after', (index levels (body.prune title)).Ends machine (result.map (Value.prune title))
          after' ∧
        after'.memory = after.memory.prune title ∧ after'.host.state = after.host.state := by
  constructor
  · intro hlevels
    exact exists_ends_of_plain hvalues hscopes hlevels
  · intro result after hends
    exact ends_index_prune title hends rfl (Memory.prune_of_plain hvalues hscopes).symm

/-- The same title for all sequences. -/
def untitled (_ : Sequence) : Title :=
  ⟨⟨0⟩, "", .eval, ""⟩

/-- A class with a method, and the body of the method as the result, among instructions that do
nothing. -/
def cluttered : Sequence :=
  let method := (Sequence.start "run" .method).emit .trace [] |>.putNil |>.leave |>.pop
  let tool := (Sequence.start "<class:Tool>" .classBody)
    |>.putSymbol "run" |>.putBody method |>.call "core#define_method" 2
    |>.call "puts" 1 |>.emit .dup []
  let defined := (Demo.appendClass (.start "<main>" .top) "Tool" none tool .empty).pop
  defined.emit .nop [] |>.putBody method |>.leave |>.pop

/-- The method is there either way, and of the four instructions in its body two are left. -/
theorem index_prune_cluttered :
    ∃ result after after', (index 5 cluttered).Ends (start .nil { state := {} }) result after ∧
      (index 5 (cluttered.prune untitled)).Ends (start .nil { state := {} })
        (result.map (Value.prune untitled)) after' ∧
      (after.host.state.classAt ⟨0⟩).instanceMethods.methods = [⟨0⟩] ∧
      (result.toOption.bind Value.sequence?).map (·.code.length) = some 4 ∧
      ((result.map (Value.prune untitled)).toOption.bind Value.sequence?).map (·.code.length) =
        some 2 ∧
      after'.memory = after.memory.prune untitled ∧ after'.host.state = after.host.state := by
  have hcheck : ((index 5 cluttered).run.run (start .nil { state := {} })).any (fun ending =>
      (ending.2.host.state.classAt ⟨0⟩).instanceMethods.methods == [⟨0⟩] &&
        (ending.1.toOption.bind Value.sequence?).map (·.code.length) == some 4 &&
        ((ending.1.map (Value.prune untitled)).toOption.bind Value.sequence?).map
          (·.code.length) == some 2) = true := by
    decide +kernel
  obtain ⟨result, after, hends, hrest⟩ := RunM.exists_ends_of_any hcheck
  simp only [Bool.and_eq_true, beq_iff_eq] at hrest
  obtain ⟨⟨hmethods, hlength⟩, hpruned⟩ := hrest
  obtain ⟨-, hprune⟩ := index_prune untitled 5 cluttered (start .nil { state := {} })
    (fun _ hvalue => absurd hvalue List.not_mem_nil)
    (fun _ hscope => by rw [List.mem_singleton.1 hscope]; rfl)
  obtain ⟨after', hends', hmemory, hstate⟩ := hprune result after hends
  exact ⟨result, after, after', hends, hends', hmethods, hlength, hpruned, hmemory, hstate⟩

end Indexing

end ClassIndex
