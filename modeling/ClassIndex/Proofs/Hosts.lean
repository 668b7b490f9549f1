import ClassIndex.Program.Demo
import ClassIndex.Proofs.Operations
import ClassIndex.Proofs.Upkeep

/-!
# Machines in the hands of a host

Between one run and the next a host may do to the memory of a machine what it likes, and it may
look at the machine in the midst of a run.  `Machine.Hosted` are the machines that come about in
this way.

Runs change the memory by its operations only, and never by those on bare frames
(`Memory.Evolves`).  So the memory of a hosted machine is one that some operations lead to
(`Hosted.evolves`), and what operations keep holds of it: the root scope stays in place, the marks
are in order, and if the host does not use bare frames either, every frame goes with one scope.
-/

namespace ClassIndex

namespace Memory

variable {bare : Bool} {before between after : Memory}

/-- Some operations lead from one memory to the other, none of them on bare frames unless `bare`
allows it. -/
def Evolves (bare : Bool) (before after : Memory) : Prop :=
  ∃ operations : List Operation,
    (∀ operation ∈ operations, operation.isBare = true → bare = true) ∧
      before.performAll operations = after

/-- Taking off a value that is not there changes nothing. -/
theorem perform_pop (memory : Memory) : memory.perform .pop = memory.dropping 1 := by
  rcases memory with ⟨_ | ⟨value, rest⟩, scopes, hscopes, frames⟩ <;> rfl

theorem dropping_dropping (memory : Memory) (first second : Nat) :
    (memory.dropping first).dropping second = memory.dropping (first + second) := by
  simp only [dropping, List.drop_drop]

namespace Evolves

theorem refl (memory : Memory) : memory.Evolves bare memory :=
  ⟨[], nofun, rfl⟩

theorem trans (h₁ : before.Evolves bare between) (h₂ : between.Evolves bare after) :
    before.Evolves bare after := by
  obtain ⟨first, hfirst, rfl⟩ := h₁
  obtain ⟨second, hsecond, rfl⟩ := h₂
  refine ⟨first ++ second, fun operation hoperation => ?_, List.foldl_append⟩
  rcases List.mem_append.1 hoperation with hmem | hmem
  · exact hfirst operation hmem
  · exact hsecond operation hmem

theorem perform (memory : Memory) (operation : Operation)
    (h : operation.isBare = true → bare = true) :
    memory.Evolves bare (memory.perform operation) :=
  ⟨[operation], List.forall_mem_singleton.2 h, rfl⟩

theorem push (memory : Memory) (value : Value) : memory.Evolves bare (memory.push value) :=
  perform memory (.push value) nofun

theorem dropping (memory : Memory) (count : Nat) : memory.Evolves bare (memory.dropping count) := by
  induction count with
  | zero => exact refl memory
  | succ count ih =>
    have hpop : (memory.dropping count).perform .pop = memory.dropping (count + 1) := by
      rw [perform_pop, dropping_dropping]
    exact ih.trans (hpop ▸ perform _ .pop nofun)

theorem leave {memory left : Memory} {value : Value} (h : memory.leave = .ok (value, left)) :
    memory.Evolves bare left := by
  have hleft : memory.perform .leave = left := by
    rw [Memory.perform, h]
    rfl
  exact hleft ▸ perform memory .leave nofun

end Evolves

end Memory

namespace Machine

variable {σ : Type} {bare : Bool} {processors : Processors σ} {machine between after : Machine σ}

/-! ## What runs do to the memory -/

/-- A way to run bodies that changes the memory by operations only. -/
def Operates (bare : Bool) (nested : Nested σ) : Prop :=
  ∀ scope body machine result after, (nested scope body).Ends machine result after →
    machine.memory.Evolves bare after.memory

section Nested

variable {nested : Nested σ}

theorem evolves_of_prepare {command : Command} {event : Event} {result : Except RunError Reply}
    (h : (prepare processors command).Ends (machine.reporting event) result after) :
    machine.memory.Evolves bare after.memory := by
  rw [memory_of_prepare h]
  exact .dropping machine.memory command.takes

namespace Operates

theorem runEntityWith (h : Operates bare nested) {entity : Value} {body : Sequence}
    {result : Except RunError Unit}
    (hrun : (Machine.runEntityWith nested entity body).Ends machine result after) :
    machine.memory.Evolves bare after.memory := by
  rcases ends_runEntityWith_iff.1 hrun with ⟨error, hbody, -⟩ | ⟨value, between, hbody, hafter⟩
  · exact h _ _ _ _ _ hbody
  · have hbetween := h _ _ _ _ _ hbody
    split at hafter
    · rw [hafter.2]
      exact hbetween
    · rw [hafter.2]
      exact (hbetween.trans (.dropping _ 1)).trans (.push _ entity)

theorem settle (h : Operates bare nested) {reply : Reply} {result : Except RunError Unit}
    (hsettle : (Machine.settle nested reply).Ends machine result after) :
    machine.memory.Evolves bare after.memory := by
  cases reply with
  | nothing =>
    obtain ⟨-, rfl⟩ := RunM.ends_pure_iff.1 hsettle
    exact .refl _
  | value value =>
    obtain ⟨-, rfl⟩ := RunM.ends_push_iff.1 hsettle
    exact .push _ value
  | definition entity body => exact h.runEntityWith hsettle

/-- The operations of an instruction, whatever becomes of it. -/
theorem step (h : Operates bare nested) {instruction : Instruction}
    {result : Except RunError Flow}
    (hstep : (Machine.step processors nested instruction).Ends machine result after) :
    machine.memory.Evolves bare after.memory := by
  cases stepEnds_of_ends hstep with
  | skipped _ | malformed _ | stuck _ _ => exact .refl _
  | left _ hleave => exact .leave hleave
  | refused _ _ hprepare => exact evolves_of_prepare hprepare
  | failed _ _ hprepare hsettle | settled _ _ hprepare hsettle =>
    exact (evolves_of_prepare hprepare).trans (h.settle hsettle)

theorem reaches (h : Operates bare nested) {code rest : List Instruction}
    (hreaches : Reaches processors nested code machine rest after) :
    machine.memory.Evolves bare after.memory := by
  refine hreaches.invariant (P := fun _ between => machine.memory.Evolves bare between.memory) ?_
    (.refl _)
  exact fun hbetween hstep => hbetween.trans (h.step hstep)

theorem runCode (h : Operates bare nested) {code : List Instruction}
    {result : Except RunError Unit}
    (hrun : (Machine.runCode processors nested code).Ends machine result after) :
    machine.memory.Evolves bare after.memory := by
  rcases reaches_of_ends_runCode hrun with
    ⟨hreaches, -⟩ | ⟨instruction, rest, last, hreaches, ⟨error, hstep, -⟩ | ⟨hstep, -⟩⟩
  · exact h.reaches hreaches
  · exact (h.reaches hreaches).trans (h.step hstep)
  · exact (h.reaches hreaches).trans (h.step hstep)

end Operates

end Nested

theorem evolves_entered (machine : Machine σ) (scope : Value) (body : Sequence) :
    machine.memory.Evolves bare (machine.entered scope body).memory :=
  .perform machine.memory (.enter scope) nofun

/-- Bodies change the memory by operations only, however deep they nest. -/
theorem operates_runInFrame (bare : Bool) (processors : Processors σ) (levels : Nat) :
    Operates bare (runInFrame processors levels) := by
  induction levels with
  | zero => exact fun _ _ _ _ _ hrun => absurd hrun not_ends_runInFrame_zero
  | succ levels ih =>
    intro scope body machine result after hrun
    obtain ⟨outcome, inner, hcode, -, rfl⟩ := ends_runInFrame_succ_iff.1 hrun
    refine ((evolves_entered machine scope body).trans (ih.runCode hcode)).trans ?_
    exact .perform inner.memory (.finish machine.memory.frameDepth outcome) nofun

/-- Also in the midst of a body there have been operations only. -/
theorem evolves_of_passes {levels : Nat} {scope : Value} {body : Sequence}
    (h : Passes processors levels scope body machine after) :
    machine.memory.Evolves bare after.memory := by
  have hreached {levels : Nat} {scope : Value} {body : Sequence} {machine between : Machine σ}
      {rest : List Instruction}
      (hreaches : Reaches processors (runInFrame processors levels) body.code
        (machine.entered scope body) rest between) :
      machine.memory.Evolves bare between.memory :=
    (evolves_entered machine scope body).trans
      ((operates_runInFrame bare processors levels).reaches hreaches)
  induction h with
  | reached hreaches => exact hreached hreaches
  | stepped hreaches hstep =>
    exact (hreached hreaches).trans ((operates_runInFrame bare processors _).step hstep)
  | prepared hreaches _ hprepare => exact (hreached hreaches).trans (evolves_of_prepare hprepare)
  | nested hreaches _ hprepare _ ih =>
    exact ((hreached hreaches).trans (evolves_of_prepare hprepare)).trans ih

/-! ## Hosts -/

/-- The machines that come about when a host starts with a fresh memory, operates on it and runs
sequences, in any order.  Only if `bare` is true it may open and close frames without their
scopes. -/
inductive Hosted (bare : Bool) (root : Value) : Machine σ → Prop
  | start (host : Host σ) : Hosted bare root ⟨.ofRoot root, host⟩
  /-- What the host does apart from the memory may be anything. -/
  | acted {machine : Machine σ} (h : Hosted bare root machine) (host : Host σ) :
      Hosted bare root { machine with host := host }
  | performed {machine : Machine σ} (h : Hosted bare root machine) (operation : Memory.Operation)
      (hallowed : operation.isBare = true → bare = true) :
      Hosted bare root { machine with memory := machine.memory.perform operation }
  | ran {processors : Processors σ} {levels : Nat} {body : Sequence} {machine after : Machine σ}
      {result : Except RunError Unit} (h : Hosted bare root machine)
      (hrun : (run processors levels body).Ends machine result after) : Hosted bare root after
  | ranProgram {processors : Processors σ} {levels : Nat} {body : Sequence}
      {machine after : Machine σ} {result : Except RunError Value} (h : Hosted bare root machine)
      (hrun : (runProgram processors levels body).Ends machine result after) :
      Hosted bare root after
  | ranInFrame {processors : Processors σ} {levels : Nat} {scope : Value} {body : Sequence}
      {machine after : Machine σ} {result : Except RunError Value} (h : Hosted bare root machine)
      (hrun : (runInFrame processors levels scope body).Ends machine result after) :
      Hosted bare root after
  | ranEntity {processors : Processors σ} {levels : Nat} {entity : Value} {body : Sequence}
      {machine after : Machine σ} {result : Except RunError Unit} (h : Hosted bare root machine)
      (hrun : (runEntity processors levels entity body).Ends machine result after) :
      Hosted bare root after
  /-- In the midst of code, an instruction was carried out. -/
  | stepped {processors : Processors σ} {levels : Nat} {instruction : Instruction}
      {machine after : Machine σ} {result : Except RunError Flow} (h : Hosted bare root machine)
      (hstep : (step processors (runInFrame processors levels) instruction).Ends machine result
        after) : Hosted bare root after
  /-- In the midst of an instruction, the host has replied. -/
  | prepared {processors : Processors σ} {instruction : Instruction} {command : Command}
      {machine after : Machine σ} {result : Except RunError Reply} (h : Hosted bare root machine)
      (hcommand : instruction.command? = some (.ok command))
      (hprepare : (prepare processors command).Ends (machine.reporting (.running instruction))
        result after) : Hosted bare root after
  /-- In the midst of a body. -/
  | passed {processors : Processors σ} {levels : Nat} {scope : Value} {body : Sequence}
      {machine after : Machine σ} (h : Hosted bare root machine)
      (hpasses : Passes processors levels scope body machine after) : Hosted bare root after

/-- Whatever a host does, operations lead from the fresh memory to the one it has. -/
theorem Hosted.evolves {root : Value} (h : machine.Hosted bare root) :
    (Memory.ofRoot root).Evolves bare machine.memory := by
  induction h with
  | start host => exact .refl _
  | acted _ host ih => exact ih
  | performed _ operation hallowed ih => exact ih.trans (.perform _ operation hallowed)
  | ran _ hrun ih =>
    -- A report comes first, which leaves the memory alone.
    rw [run, runWith, RunM.ends_report_bind_iff] at hrun
    have hcode := (operates_runInFrame bare _ _).runCode hrun
    exact ih.trans hcode
  | ranProgram _ hrun ih =>
    rw [runProgram, RunM.ends_memory_bind_iff] at hrun
    exact ih.trans (operates_runInFrame bare _ _ _ _ _ _ _ hrun)
  | ranInFrame _ hrun ih => exact ih.trans (operates_runInFrame bare _ _ _ _ _ _ _ hrun)
  | ranEntity _ hrun ih => exact ih.trans ((operates_runInFrame bare _ _).runEntityWith hrun)
  | stepped _ hstep ih => exact ih.trans ((operates_runInFrame bare _ _).step hstep)
  | prepared _ _ hprepare ih => exact ih.trans (evolves_of_prepare hprepare)
  | passed _ hpasses ih => exact ih.trans (evolves_of_passes hpasses)

/-- Whatever a host does, the root scope stays, and the marks of the open frames are in order and
within the scopes.  Without bare frames, every frame goes with the scope above its mark. -/
theorem memory_of_hosted {root : Value} (h : machine.Hosted bare root) :
    machine.memory.scopes ≠ [] ∧ machine.memory.scopes.getLast? = some root ∧
    machine.memory.scopes.head? = some machine.memory.self ∧ machine.memory.root = root ∧
    (machine.memory.frames.reverse.map FrameMark.scopeDepth).Pairwise (· ≤ ·) ∧
    (∀ mark ∈ machine.memory.frames,
      1 ≤ mark.scopeDepth ∧ mark.scopeDepth ≤ machine.memory.scopeDepth ∧
        (machine.memory.cutScopes mark).scopeDepth = mark.scopeDepth) ∧
    (bare = false →
      machine.memory.scopeDepth = machine.memory.frameDepth + 1 ∧
        ∀ position mark, machine.memory.frames.reverse[position]? = some mark →
          mark.scopeDepth = position + 1) := by
  obtain ⟨operations, hallowed, hmemory⟩ := h.evolves
  have hmarked : machine.memory.Marked root := hmemory ▸ Memory.marked_performAll root operations
  refine ⟨machine.memory.scopes_ne_nil, hmarked.root, ?_, ?_, ?_, fun mark hmark => ?_,
    fun hbare => ?_⟩
  · obtain ⟨scope, hscope⟩ := Option.isSome_iff_exists.1
      (List.isSome_head?.2 machine.memory.scopes_ne_nil)
    rw [Memory.self, hscope, Option.getD_some]
  · rw [Memory.root, hmarked.root, Option.getD_some]
  · rw [List.pairwise_map, List.pairwise_reverse]
    exact hmarked.ordered
  · obtain ⟨hpos, hle⟩ := hmarked.bounds mark hmark
    exact ⟨hpos, hle, hmarked.scopeDepth_cutScopes hmark⟩
  · subst hbare
    have hplain : ∀ operation ∈ operations, operation.isBare = false := by simpa using hallowed
    have haligned : machine.memory.Aligned := hmemory ▸ Memory.aligned_performAll root hplain
    exact ⟨haligned.depth, fun position mark => haligned.scopeDepth_of_getElem?⟩

/-- A host enters two bodies and runs a program in the inner one, which leaves it. -/
theorem memory_of_hosted_demo :
    ∃ result, ∃ after : Machine Unit,
      (run Processors.empty 3 Demo.program).Ends
        ⟨((Memory.ofRoot .nil).perform (.enter .nil)).perform (.enter .nil), ⟨(), #[]⟩⟩ result
        after ∧
      after.memory.frameDepth = 1 ∧ after.memory.scopeDepth = 2 ∧
      after.memory.frames.map FrameMark.scopeDepth = [1] := by
  have hcheck : ((run Processors.empty 3 Demo.program).run.run
      (⟨((Memory.ofRoot .nil).perform (.enter .nil)).perform (.enter .nil), ⟨(), #[]⟩⟩ :
        Machine Unit)).any (fun ending => ending.2.memory.frameDepth == 1) = true := by
    decide +kernel
  obtain ⟨result, after, hends, hframes⟩ := RunM.exists_ends_of_any hcheck
  rw [beq_iff_eq] at hframes
  have hhosted : after.Hosted false .nil :=
    .ran (.performed (.performed (.start ⟨(), #[]⟩) (.enter .nil) nofun) (.enter .nil) nofun) hends
  obtain ⟨-, -, -, -, -, -, haligned⟩ := memory_of_hosted hhosted
  obtain ⟨hdepth, hmarks⟩ := haligned rfl
  obtain ⟨mark, hmark⟩ := List.length_eq_one_iff.1 hframes
  refine ⟨result, after, hends, hframes, by rw [hdepth, hframes], ?_⟩
  rw [hmark, List.map_singleton, hmarks 0 mark (by rw [hmark]; rfl)]

end Machine

end ClassIndex
