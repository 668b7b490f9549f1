import ClassIndex.Proofs.Simulation

/-!
# What runs keep up

An invariant of a machine has two parts: a property `Good` of its host, and a property `Fits` of the
values that it holds, which may refer to the state of the host.  `Processors.Preserves` is what the
processors have to do about the two.  They are asked for it only when an instruction hands
something to them (`Host.Hands`), so that `Good` may speak about the instructions that ran.

Runs then keep up both parts, whatever comes of them (`Preserves.runInFrame`).  And they do so all
the time: `Machine.Passes` are the machines that a run passes on its way, down to the bodies of the
definitions in it, and all of them uphold the invariant (`Preserves.of_passes`).
-/

namespace ClassIndex

/-! ## Memories and errands -/

/-- Lists that are alike because their elements are equal and have a property. -/
theorem eq_of_forall₂_self {α : Type} {P : α → Prop} {first second : List α}
    (h : List.Forall₂ (fun value value' => value' = value ∧ P value) first second) :
    second = first ∧ ∀ value ∈ first, P value := by
  induction h with
  | nil => exact ⟨rfl, fun _ hvalue => absurd hvalue List.not_mem_nil⟩
  | cons hhead _ ih =>
    obtain ⟨rfl, hvalue⟩ := hhead
    obtain ⟨rfl, hrest⟩ := ih
    exact ⟨rfl, List.forall_mem_cons.2 ⟨hvalue, hrest⟩⟩

namespace Memory

variable {P : Value → Prop} {memory : Memory}

/-- All values and all scopes have a property. -/
structure All (P : Value → Prop) (memory : Memory) : Prop where
  values : ∀ value ∈ memory.values, P value
  scopes : ∀ scope ∈ memory.scopes, P scope

/-- In such a memory every value is alike to itself, so what is known about memories that are alike
holds of it. -/
theorem All.alike (h : memory.All P) :
    memory.Alike (fun value value' => value' = value ∧ P value) [] memory :=
  alike_self (fun value hvalue => ⟨rfl, h.values value hvalue⟩)
    fun scope hscope => ⟨rfl, h.scopes scope hscope⟩

theorem all_of_alike {other : Memory}
    (h : memory.Alike (fun value value' => value' = value ∧ P value) [] other) :
    memory.All P := by
  obtain ⟨upper, -, hupper⟩ := h.values
  exact ⟨(eq_of_forall₂_self hupper).2, (eq_of_forall₂_self h.scopes).2⟩

theorem all_ofRoot {root : Value} (hroot : P root) : (ofRoot root).All P :=
  ⟨fun _ hvalue => absurd hvalue List.not_mem_nil, List.forall_mem_singleton.2 hroot⟩

namespace All

theorem mono {P' : Value → Prop} (h : memory.All P) (himp : ∀ value, P value → P' value) :
    memory.All P' :=
  ⟨fun value hvalue => himp value (h.values value hvalue),
    fun scope hscope => himp scope (h.scopes scope hscope)⟩

theorem push (h : memory.All P) {value : Value} (hvalue : P value) : (memory.push value).All P :=
  all_of_alike (h.alike.push ⟨rfl, hvalue⟩)

theorem dropping (h : memory.All P) (count : Nat) : (memory.dropping count).All P :=
  all_of_alike (h.alike.dropping (Or.inr rfl))

theorem enter (h : memory.All P) {scope : Value} (hscope : P scope) : (memory.enter scope).All P :=
  all_of_alike (h.alike.enter ⟨rfl, hscope⟩)

theorem leave (h : memory.All P) {value : Value} {left : Memory}
    (hleave : memory.leave = .ok (value, left)) : left.All P := by
  have hleft := h.alike.leave
  rw [hleave] at hleft
  cases hleft with
  | ok hleft => exact all_of_alike hleft.2

theorem finish (h : memory.All P) (level : Nat) (outcome : Except RunError Unit) :
    (memory.finish level outcome).2.All P :=
  all_of_alike (h.alike.finish level fun _ => rfl).2

end All

end Memory

/-- The value of a reply has a property. -/
def Reply.All (P : Value → Prop) : Reply → Prop
  | .nothing => True
  | .value given => P given
  | .definition entity _ => P entity

theorem Reply.all_of_alike {P : Value → Prop} {reply other : Reply}
    (h : reply.Alike (fun value value' => value' = value ∧ P value) other) : reply.All P := by
  cases h with
  | nothing => trivial
  | value h => exact h.2
  | definition _ h => exact h.2

/-- The values of an errand have a property, and its reply has no others than what it is made of. -/
def Errand.All (P : Value → Prop) : Errand → Prop
  | answer reply => reply.All P
  | ignore _ => True
  | declare _ _ values reply =>
    (∀ value ∈ values, P value) ∧ ∀ (P' : Value → Prop) value, P' value → (reply value).All P'

theorem Errand.all_of_alike {P : Value → Prop} {errand other : Errand}
    (h : errand.Alike (fun value value' => value' = value ∧ P value) other) : errand.All P := by
  cases h with
  | answer h => exact Reply.all_of_alike h
  | ignore _ => trivial
  | @declare _ _ _ _ reply hvalues hreply =>
    refine ⟨(eq_of_forall₂_self hvalues).2, fun P' value hvalue => ?_⟩
    have halike : (reply value).Alike (fun value value' => value' = value ∧ P' value)
        (reply value) := hreply ⟨rfl, hvalue⟩
    exact Reply.all_of_alike halike

/-- The errand of a command is about the values in the memory and those of the code. -/
theorem Command.errand_all {P : Value → Prop} {memory : Memory} {command : Command}
    (h : memory.All P) (hplain : ∀ value : Value, value.IsPlain → P value)
    (hcommand : command.IsPlain) (htakes : command.takes ≤ memory.depth) :
    (command.errand memory.self memory.root (memory.values.take command.takes)).All P := by
  refine Errand.all_of_alike (Command.errand_alike hcommand (fun value hvalue =>
    ⟨rfl, hplain value hvalue⟩) (fun _ _ hvalue => by rw [hvalue.1]) h.alike.self h.alike.root ?_
    (h.alike.forall₂_take htakes))
  rw [List.length_take]
  exact Nat.min_eq_left htakes

/-! ## Processors -/

variable {σ : Type}

/-- An instruction that runs on the host hands values to a processor. -/
def Host.Hands (host : Host σ) (opcode : Opcode) (qualifier : Option String)
    (values : List Value) : Prop :=
  ∃ instruction command self root taken reply, .running instruction ∈ host.events ∧
    instruction.command? = some (.ok command) ∧
    command.errand self root taken = .declare opcode qualifier values reply

/-- No processor breaks the invariant by what instructions hand to it.  What is neither a class nor
a method always fits. -/
structure Processors.Preserves (processors : Processors σ) (Good : Host σ → Prop)
    (Fits : σ → Value → Prop) : Prop where
  plain : ∀ {state : σ} {value : Value}, value.IsPlain → Fits state value
  report : ∀ {host : Host σ} (event : Event), Good host → Good (host.reporting event)
  dispatch : ∀ {opcode qualifier values host outcome after},
    host.Hands opcode qualifier values → Good host → (∀ value ∈ values, Fits host.state value) →
    (processors.dispatch opcode qualifier values).run.run host = (outcome, after) →
    Good after ∧ (∀ value, outcome = .ok value → Fits after.state value) ∧
      ∀ value, Fits host.state value → Fits after.state value

/-- A further property of hosts may build on an invariant. -/
theorem Processors.Preserves.and {processors : Processors σ} {Good Extra : Host σ → Prop}
    {Fits : σ → Value → Prop} (h : processors.Preserves Good Fits)
    (hreport : ∀ {host : Host σ} (event : Event), Extra host → Extra (host.reporting event))
    (hdispatch : ∀ {opcode qualifier values host outcome after},
      host.Hands opcode qualifier values → Good host → Extra host →
      (∀ value ∈ values, Fits host.state value) →
      (processors.dispatch opcode qualifier values).run.run host = (outcome, after) →
      Extra after) :
    processors.Preserves (fun host => Good host ∧ Extra host) Fits where
  plain := h.plain
  report event hgood := ⟨h.report event hgood.1, hreport event hgood.2⟩
  dispatch hhands hgood hvalues hrun := by
    obtain ⟨hafter, hanswer, hmono⟩ := h.dispatch hhands hgood.1 hvalues hrun
    exact ⟨⟨hafter, hdispatch hhands hgood.1 hgood.2 hvalues hrun⟩, hanswer, hmono⟩

/-! ## Runs -/

namespace Machine

variable {Good : Host σ → Prop} {Fits : σ → Value → Prop} {machine between after : Machine σ}

/-- The host of a machine is good, and all that the machine holds fits. -/
structure Upholds (Good : Host σ → Prop) (Fits : σ → Value → Prop) (machine : Machine σ) :
    Prop where
  good : Good machine.host
  memory : machine.memory.All (Fits machine.host.state)

/-- A later machine upholds the invariant, and what fitted before still does. -/
structure Upheld (Good : Host σ → Prop) (Fits : σ → Value → Prop) (machine after : Machine σ) :
    Prop where
  upholds : after.Upholds Good Fits
  later : ∀ value, Fits machine.host.state value → Fits after.host.state value

theorem Upholds.upheld (h : machine.Upholds Good Fits) : Upheld Good Fits machine machine :=
  ⟨h, fun _ hvalue => hvalue⟩

theorem Upheld.trans (h₁ : Upheld Good Fits machine between) (h₂ : Upheld Good Fits between after) :
    Upheld Good Fits machine after :=
  ⟨h₂.upholds, fun value hvalue => h₂.later value (h₁.later value hvalue)⟩

/-- Changes of the memory alone have to bring in what fits. -/
theorem Upheld.withMemory (h : Upheld Good Fits machine after) {memory : Memory}
    (hmemory : memory.All (Fits after.host.state)) :
    Upheld Good Fits machine { after with memory := memory } :=
  ⟨⟨h.upholds.good, hmemory⟩, h.later⟩

/-- The machines that the run of a body passes: where its code gets to, what each instruction
leaves behind, also when it fails, what it leaves to the body of its definition, and what that
body passes. -/
inductive Passes (processors : Processors σ) :
    Nat → Value → Sequence → Machine σ → Machine σ → Prop
  | reached {levels : Nat} {scope : Value} {body : Sequence} {machine between : Machine σ}
      {rest : List Instruction}
      (hreaches : Reaches processors (runInFrame processors levels) body.code
        (machine.entered scope body) rest between) :
      Passes processors (levels + 1) scope body machine between
  | stepped {levels : Nat} {scope : Value} {body : Sequence} {machine between after : Machine σ}
      {instruction : Instruction} {rest : List Instruction} {result : Except RunError Flow}
      (hreaches : Reaches processors (runInFrame processors levels) body.code
        (machine.entered scope body) (instruction :: rest) between)
      (hstep : (step processors (runInFrame processors levels) instruction).Ends between result
        after) :
      Passes processors (levels + 1) scope body machine after
  | prepared {levels : Nat} {scope : Value} {body : Sequence} {machine between after : Machine σ}
      {instruction : Instruction} {rest : List Instruction} {command : Command}
      {result : Except RunError Reply}
      (hreaches : Reaches processors (runInFrame processors levels) body.code
        (machine.entered scope body) (instruction :: rest) between)
      (hcommand : instruction.command? = some (.ok command))
      (hprepare : (prepare processors command).Ends (between.reporting (.running instruction))
        result after) :
      Passes processors (levels + 1) scope body machine after
  | nested {levels : Nat} {scope entity : Value} {body definition : Sequence}
      {machine between prepared after : Machine σ} {instruction : Instruction}
      {rest : List Instruction} {command : Command}
      (hreaches : Reaches processors (runInFrame processors levels) body.code
        (machine.entered scope body) (instruction :: rest) between)
      (hcommand : instruction.command? = some (.ok command))
      (hprepare : (prepare processors command).Ends (between.reporting (.running instruction))
        (.ok (.definition entity definition)) prepared)
      (hpasses : Passes processors levels entity definition prepared after) :
      Passes processors (levels + 1) scope body machine after

end Machine

namespace Processors.Preserves

open Machine

variable {processors : Processors σ} {Good : Host σ → Prop} {Fits : σ → Value → Prop}
  {machine between after : Machine σ} {instruction : Instruction} {command : Command}

theorem reporting (h : processors.Preserves Good Fits) (hmachine : machine.Upholds Good Fits)
    (event : Event) : Upheld Good Fits machine (machine.reporting event) :=
  ⟨⟨h.report event hmachine.good, hmachine.memory⟩, fun _ hvalue => hvalue⟩

theorem entered (h : processors.Preserves Good Fits) (hmachine : machine.Upholds Good Fits)
    {scope : Value} (hscope : Fits machine.host.state scope) (body : Sequence) :
    Upheld Good Fits machine (machine.entered scope body) := by
  have hopened := hmachine.upheld.withMemory (hmachine.memory.enter hscope)
  exact hopened.trans (h.reporting hopened.upholds (.entered body))

/-- What the host does for a command keeps up the invariant, and its reply fits. -/
theorem prepare (h : processors.Preserves Good Fits) (hmachine : machine.Upholds Good Fits)
    (hrunning : .running instruction ∈ machine.host.events)
    (hcommand : instruction.command? = some (.ok command)) {result : Except RunError Reply}
    (hprepare : (Machine.prepare processors command).Ends machine result after) :
    Upheld Good Fits machine after ∧
      ∀ reply, result = .ok reply → reply.All (Fits after.host.state) := by
  rcases after with ⟨memory, host⟩
  obtain ⟨hmemory, hends⟩ := ends_prepare_iff.1 hprepare
  dsimp only at hmemory hends ⊢
  subst hmemory
  have hdropped := hmachine.memory.dropping command.takes
  split at hends
  · rename_i htakes
    have herrand := Command.errand_all hmachine.memory (fun _ => h.plain)
      (Instruction.isPlain_of_command? hcommand) htakes
    rw [Command.perform_eq] at hends
    generalize hgiven : command.errand machine.memory.self machine.memory.root
      (machine.memory.values.take command.takes) = errand at herrand hends
    cases errand with
    | answer reply =>
      cases hends
      refine ⟨hmachine.upheld.withMemory hdropped, fun _ hreply => ?_⟩
      cases hreply
      exact herrand
    | ignore method =>
      cases hends
      refine ⟨(h.reporting hmachine _).withMemory hdropped, fun _ hreply => ?_⟩
      cases hreply
      trivial
    | declare opcode qualifier values reply =>
      rw [Errand.run_declare] at hends
      rcases hdispatch : (processors.dispatch opcode qualifier values).run.run machine.host with
        ⟨outcome, after⟩
      obtain ⟨hgood, hanswer, hlater⟩ := h.dispatch ⟨_, _, _, _, _, _, hrunning, hcommand, hgiven⟩
        hmachine.good herrand.1 hdispatch
      have hupheld : Upheld Good Fits machine ⟨machine.memory.dropping command.takes, after⟩ :=
        ⟨⟨hgood, hdropped.mono hlater⟩, hlater⟩
      rw [hdispatch] at hends
      cases outcome with
      | error error =>
        cases hends
        refine ⟨hupheld, fun _ hreply => ?_⟩
        cases hreply
      | ok value =>
        cases hends
        refine ⟨hupheld, fun _ hreply => ?_⟩
        cases hreply
        exact herrand.2 _ value (hanswer value rfl)
  · obtain ⟨rfl, rfl⟩ := hends
    refine ⟨hmachine.upheld.withMemory hdropped, fun _ hreply => ?_⟩
    cases hreply

theorem prepare_reporting (h : processors.Preserves Good Fits)
    (hmachine : machine.Upholds Good Fits) (hcommand : instruction.command? = some (.ok command))
    {result : Except RunError Reply}
    (hprepare : (Machine.prepare processors command).Ends
      (machine.reporting (.running instruction)) result after) :
    Upheld Good Fits machine after ∧
      ∀ reply, result = .ok reply → reply.All (Fits after.host.state) := by
  have hreported := h.reporting hmachine (.running instruction)
  obtain ⟨hupheld, hreply⟩ := h.prepare hreported.upholds Array.mem_push_self hcommand hprepare
  exact ⟨hreported.trans hupheld, hreply⟩

/-- A way to run bodies that keeps up the invariant. -/
def Nests (Good : Host σ → Prop) (Fits : σ → Value → Prop) (nested : Nested σ) : Prop :=
  ∀ scope body machine result after, machine.Upholds Good Fits → Fits machine.host.state scope →
    (nested scope body).Ends machine result after → Upheld Good Fits machine after

section Bodies

variable {nested : Nested σ}

theorem Nests.settle (hnested : Nests Good Fits nested) (hmachine : machine.Upholds Good Fits)
    {reply : Reply}
    (hreply : reply.All (Fits machine.host.state)) {result : Except RunError Unit}
    (hsettle : (Machine.settle nested reply).Ends machine result after) :
    Upheld Good Fits machine after := by
  cases reply with
  | nothing =>
    obtain ⟨-, rfl⟩ := RunM.ends_pure_iff.1 hsettle
    exact hmachine.upheld
  | value value =>
    obtain ⟨-, rfl⟩ := RunM.ends_push_iff.1 hsettle
    exact hmachine.upheld.withMemory (hmachine.memory.push hreply)
  | definition entity body =>
    rcases ends_runEntityWith_iff.1 hsettle with
      ⟨error, hbody, -⟩ | ⟨value, between, hbody, hafter⟩
    · exact hnested _ _ _ _ _ hmachine hreply hbody
    · have hupheld := hnested _ _ _ _ _ hmachine hreply hbody
      split at hafter
      · rw [hafter.2]
        exact hupheld
      · rw [hafter.2]
        exact hupheld.withMemory
          ((hupheld.upholds.memory.dropping 1).push (hupheld.later entity hreply))

/-- Whatever becomes of an instruction, the invariant is kept up. -/
theorem step (h : processors.Preserves Good Fits) (hnested : Nests Good Fits nested)
    (hmachine : machine.Upholds Good Fits) {result : Except RunError Flow}
    (hstep : (Machine.step processors nested instruction).Ends machine result after) :
    Upheld Good Fits machine after := by
  cases stepEnds_of_ends hstep with
  | skipped _ | malformed _ | stuck _ _ => exact h.reporting hmachine _
  | left _ hleave => exact (h.reporting hmachine _).withMemory (hmachine.memory.leave hleave)
  | refused hcommand _ hprepare => exact (h.prepare_reporting hmachine hcommand hprepare).1
  | failed hcommand _ hprepare hsettle | settled hcommand _ hprepare hsettle =>
    obtain ⟨hupheld, hreply⟩ := h.prepare_reporting hmachine hcommand hprepare
    exact hupheld.trans (hnested.settle hupheld.upholds (hreply _ rfl) hsettle)

theorem runCode (h : processors.Preserves Good Fits) (hnested : Nests Good Fits nested)
    (hmachine : machine.Upholds Good Fits) {code : List Instruction}
    {result : Except RunError Unit}
    (hrun : (Machine.runCode processors nested code).Ends machine result after) :
    Upheld Good Fits machine after := by
  induction code generalizing machine with
  | nil =>
    obtain ⟨-, rfl⟩ := RunM.ends_pure_iff.1 hrun
    exact hmachine.upheld
  | cons instruction rest ih =>
    rcases ends_runCode_cons_iff.1 hrun with
      ⟨error, hstep, -⟩ | ⟨hstep, -⟩ | ⟨between, hstep, hrest⟩
    · exact h.step hnested hmachine hstep
    · exact h.step hnested hmachine hstep
    · have hupheld := h.step hnested hmachine hstep
      exact hupheld.trans (ih hupheld.upholds hrest)

end Bodies

/-- Every body keeps up the invariant, however deep it nests and whatever comes of it. -/
theorem runInFrame (h : processors.Preserves Good Fits) (levels : Nat) :
    Nests Good Fits (Machine.runInFrame processors levels) := by
  induction levels with
  | zero => exact fun _ _ _ _ _ _ _ hrun => absurd hrun not_ends_runInFrame_zero
  | succ levels ih =>
    intro scope body machine result after hmachine hscope hrun
    obtain ⟨outcome, inner, hcode, -, rfl⟩ := ends_runInFrame_succ_iff.1 hrun
    have hentered := h.entered hmachine hscope body
    have hinner := hentered.trans (h.runCode ih hentered.upholds hcode)
    exact hinner.withMemory (hinner.upholds.memory.finish _ outcome)

theorem reaches (h : processors.Preserves Good Fits) {levels : Nat}
    {code rest : List Instruction} (hmachine : machine.Upholds Good Fits)
    (hreaches : Reaches processors (Machine.runInFrame processors levels) code machine rest after) :
    Upheld Good Fits machine after := by
  induction hreaches with
  | here => exact hmachine.upheld
  | next hstep _ ih =>
    have hupheld := h.step (h.runInFrame levels) hmachine hstep
    exact hupheld.trans (ih hupheld.upholds)

theorem body_reaches (h : processors.Preserves Good Fits) {levels : Nat} {scope : Value}
    {body : Sequence} {rest : List Instruction} (hmachine : machine.Upholds Good Fits)
    (hscope : Fits machine.host.state scope)
    (hreaches : Reaches processors (Machine.runInFrame processors levels) body.code
      (machine.entered scope body) rest after) :
    Upheld Good Fits machine after := by
  have hentered := h.entered hmachine hscope body
  exact hentered.trans (h.reaches hentered.upholds hreaches)

/-- The invariant is kept up all along a run, in the midst of the bodies that it runs, too. -/
theorem of_passes (h : processors.Preserves Good Fits) {levels : Nat} {scope : Value}
    {body : Sequence} (hmachine : machine.Upholds Good Fits)
    (hscope : Fits machine.host.state scope)
    (hpasses : Passes processors levels scope body machine after) :
    Upheld Good Fits machine after := by
  induction hpasses with
  | reached hreaches => exact h.body_reaches hmachine hscope hreaches
  | stepped hreaches hstep =>
    have hbetween := h.body_reaches hmachine hscope hreaches
    exact hbetween.trans (h.step (h.runInFrame _) hbetween.upholds hstep)
  | prepared hreaches hcommand hprepare =>
    have hbetween := h.body_reaches hmachine hscope hreaches
    exact hbetween.trans (h.prepare_reporting hbetween.upholds hcommand hprepare).1
  | nested hreaches hcommand hprepare _ ih =>
    have hbetween := h.body_reaches hmachine hscope hreaches
    obtain ⟨hprepared, hreply⟩ := h.prepare_reporting hbetween.upholds hcommand hprepare
    have hupheld := hbetween.trans hprepared
    exact hupheld.trans (ih hupheld.upholds (hreply _ rfl))

end Processors.Preserves

end ClassIndex
