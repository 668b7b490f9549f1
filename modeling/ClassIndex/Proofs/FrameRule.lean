import ClassIndex.Proofs.Balance
import ClassIndex.Proofs.Requests
import ClassIndex.Proofs.Sessions
import ClassIndex.Proofs.Simulation
import ClassIndex.Proofs.Transitions

/-!
# The frame rule

What stands underneath the values of a machine does not matter to it, as long as it does not run out
of values of its own: a body run above further values ends with the same result and leaves them
where they are (`ends_above`).  So one indexer for many sequences is as good as a new one for each
of them, although it keeps the results of the earlier sequences on its stack.

Both are simulations in which values are alike if they are equal.  For the first the hosts are equal
too.  For the second they have the same state: no declaration looks at the events that were
reported.
-/

namespace ClassIndex

namespace Memory

/-- The memory with further values underneath its own. -/
def above (below : List Value) (memory : Memory) : Memory :=
  { memory with
    values := memory.values ++ below
    frames := memory.frames.map (·.raised below.length) }

theorem above_nil (memory : Memory) : memory.above [] = memory :=
  ext_stacks (List.append_nil _) rfl (List.map_id' _)

/-- With equal values, two memories are alike just if one is the other with values underneath. -/
theorem alike_eq_iff {below : List Value} {first second : Memory} :
    Alike Eq below first second ↔ second = first.above below := by
  constructor
  · intro h
    obtain ⟨upper, hvalues, hupper⟩ := h.values
    have hscopes := h.scopes
    rw [List.forall₂_eq_eq_eq] at hupper hscopes
    subst hupper
    exact ext_stacks hvalues hscopes.symm h.frames
  · rintro rfl
    refine ⟨⟨first.values, rfl, ?_⟩, ?_, rfl⟩ <;> rw [List.forall₂_eq_eq_eq]
    rfl

theorem above_of_sameFrames {root : Value} {memory : Memory} (below : List Value)
    (h : (ofRoot root).SameFrames memory) :
    memory.above below = (ofRoot root).above (memory.values ++ below) := by
  refine ext_stacks rfl h.scopes ?_
  have hframes : memory.frames = [] := h.frames
  show memory.frames.map _ = _
  rw [hframes]
  rfl

end Memory

/-- The machine with further values underneath its own. -/
def Machine.above {σ : Type} (below : List Value) (machine : Machine σ) : Machine σ :=
  { machine with memory := machine.memory.above below }

namespace Simulation

variable {σ : Type} {Hosts : Host σ → Host σ → Prop} {Followed : RunError → Prop}
  {processors : Processors σ} {below : List Value}

/-- The simulation in which values are alike if they are equal. -/
def agreement (Hosts : Host σ → Host σ → Prop) (Followed : RunError → Prop) : Simulation σ σ where
  Hosts := Hosts
  Values _ _ := Eq
  Followed := Followed

theorem lawful_agreement (hbelow : Followed .stackUnderflow → below = [])
    (hreport : ∀ host other event, Hosts host other →
      Hosts (host.reporting event) (other.reporting event))
    (hdispatch : ∀ opcode qualifier values host other outcome after, Hosts host other →
      (processors.dispatch opcode qualifier values).run.run host = (outcome, after) →
      ∃ after', (processors.dispatch opcode qualifier values).run.run other = (outcome, after') ∧
        Hosts after after') :
    (agreement Hosts Followed).Lawful processors processors below where
  plain _ _ := rfl
  sequence h := congrArg _ h
  underflow := hbelow
  report event h := ⟨hreport _ _ event h, fun _ _ hvalue => hvalue⟩
  dispatch := by
    intro opcode qualifier values others host other outcome after hhosts hvalues hrun _ _
    have hsame : values = others := by
      rwa [agreement, List.forall₂_eq_eq_eq] at hvalues
    subst hsame
    obtain ⟨after', hrun', hafter⟩ := hdispatch _ _ _ _ _ _ _ hhosts hrun
    refine ⟨outcome, after', hrun', Or.inl ⟨?_, hafter, fun _ _ hvalue => hvalue⟩⟩
    cases outcome with
    | ok value => exact .ok rfl
    | error error => exact .error error
  within := ⟨fun _ h => h, fun h h' hafter => h (h' hafter), fun _ _ h => h, fun _ h => h⟩

theorem ends_of_agreement (law : (agreement Hosts Followed).Lawful processors processors below)
    {levels levels' : Nat} (hlevels : levels ≤ levels') {scope : Value} {body : Sequence}
    {machine other after : Machine σ} {result : Except RunError Value}
    (h : (Machine.runInFrame processors levels scope body).Ends machine result after)
    (hfollowed : ∀ error, result = .error error → Followed error)
    (hhosts : Hosts machine.host other.host)
    (hmemory : other.memory = machine.memory.above below) :
    ∃ after', (Machine.runInFrame processors levels' scope body).Ends other result after' ∧
      Hosts after.host after'.host ∧ after'.memory = after.memory.above below := by
  have hmachines : (agreement Hosts Followed).Machines below machine other :=
    ⟨hhosts, Memory.alike_eq_iff.2 hmemory⟩
  obtain ⟨result', after', hends', hending⟩ :=
    nests_runInFrame law hlevels scope scope body machine other hmachines rfl result after h
      hfollowed trivial
  cases hending with
  | together houtcomes hafter _ =>
    have hresult : result' = result := by
      cases houtcomes with
      | ok hvalue => rw [show _ = _ from hvalue]
      | error error => rfl
    subst hresult
    exact ⟨after', hends', hafter.hosts, Memory.alike_eq_iff.1 hafter.memory⟩
  | stopped _ hstopped => exact hstopped.elim

theorem lawful_eq (hbelow : Followed .stackUnderflow → below = []) :
    (agreement Eq Followed).Lawful processors processors below := by
  refine lawful_agreement hbelow (fun _ _ _ h => h ▸ rfl) ?_
  rintro opcode qualifier values host _ outcome after rfl hrun
  exact ⟨after, hrun, rfl⟩

theorem lawful_state (hbelow : Followed .stackUnderflow → below = []) :
    (agreement (fun host other : Host Model => other.state = host.state) Followed).Lawful
      Declarations.processors Declarations.processors below := by
  refine lawful_agreement hbelow (fun _ _ _ h => h) ?_
  intro opcode qualifier values host other outcome after hstate hrun
  obtain ⟨check, -, hresults⟩ := Declarations.run_dispatch opcode qualifier
  have hhost := hresults values host
  have hother := hresults values other
  rw [ActionM.Results, hrun] at hhost
  rw [hstate, ← hhost] at hother
  exact hother.exists_run

end Simulation

namespace Machine

variable {σ : Type} {processors : Processors σ} {levels : Nat} {scope : Value} {body : Sequence}
  {machine after : Machine σ} {result : Except RunError Value}

theorem ends_of_levels_le {levels' : Nat} (hlevels : levels ≤ levels')
    (h : (runInFrame processors levels scope body).Ends machine result after) :
    (runInFrame processors levels' scope body).Ends machine result after := by
  have law : (Simulation.agreement (σ := σ) Eq fun _ => True).Lawful processors processors [] :=
    Simulation.lawful_eq fun _ => rfl
  obtain ⟨after', hends', hhost, hmemory⟩ := Simulation.ends_of_agreement law hlevels h
    (fun _ _ => trivial) rfl (Memory.above_nil machine.memory).symm
  rw [Memory.above_nil] at hmemory
  rcases after' with ⟨memory, host⟩
  cases hhost
  cases hmemory
  exact hends'

/-- A body above further values does what it does without them, unless it runs out of values. -/
theorem ends_above (below : List Value)
    (h : (runInFrame processors levels scope body).Ends machine result after)
    (hresult : result ≠ .error .stackUnderflow) :
    (runInFrame processors levels scope body).Ends (machine.above below) result
      (after.above below) := by
  have law : (Simulation.agreement (σ := σ) Eq fun error => error ≠ .stackUnderflow).Lawful
      processors processors below :=
    Simulation.lawful_eq fun hunderflow => absurd rfl hunderflow
  have hfollowed : ∀ error, result = .error error → error ≠ .stackUnderflow := by
    rintro error rfl rfl
    exact hresult rfl
  obtain ⟨after', hends', hhost, hmemory⟩ := Simulation.ends_of_agreement law (Nat.le_refl levels)
    h hfollowed (show machine.host = (machine.above below).host from rfl) rfl
  rcases after' with ⟨memory, host⟩
  cases hhost
  cases hmemory
  exact hends'

end Machine

namespace Indexing

variable {levels : Nat} {root : Value}

theorem index_above {body : Sequence} {host : Host Model} {other after : Machine Model}
    {below : List Value} {result : Except RunError Value}
    (h : (index levels body).Ends (start root host) result after)
    (hresult : result ≠ .error .stackUnderflow) (hstate : other.host.state = host.state)
    (hmemory : other.memory = (Memory.ofRoot root).above below) :
    ∃ after', (index levels body).Ends other result after' ∧
      after'.host.state = after.host.state ∧
      after'.memory = (Memory.ofRoot root).above (after.memory.values ++ below) := by
  have hroot : other.memory.root = root := by
    rw [hmemory]
    rfl
  have hfollowed : ∀ error, result = .error error → error ≠ .stackUnderflow := by
    rintro error rfl rfl
    exact hresult rfl
  rw [ends_index_iff] at h
  obtain ⟨after', hends', hafter, hmemory'⟩ := Simulation.ends_of_agreement
    (Simulation.lawful_state fun hunderflow => absurd rfl hunderflow) (Nat.le_refl levels) h
    hfollowed hstate hmemory
  have hsame := (Machine.balanced_runInFrame _ _ _ _ _ _ _ h).1
  refine ⟨after', ends_index_iff.2 ?_, hafter, ?_⟩
  · rw [hroot]
    exact hends'
  · rw [hmemory', Memory.above_of_sameFrames below hsame]

theorem indexEach_of_indexAll {bodies : List Sequence} {host final : Host Model}
    {outcomes : List Outcome} (h : indexAll levels root bodies host = some (outcomes, final))
    (houtcomes : ∀ outcome ∈ outcomes, outcome.result ≠ .error .stackUnderflow)
    {machine : Machine Model} {below : List Value} (hstate : machine.host.state = host.state)
    (hmemory : machine.memory = (Memory.ofRoot root).above below) :
    ∃ after, indexEach levels bodies machine = some (outcomes.map (·.result), after) ∧
      after.host.state = final.state := by
  induction bodies generalizing host outcomes machine below with
  | nil =>
    rw [indexAll_nil] at h
    cases h
    exact ⟨machine, indexEach_nil machine, hstate⟩
  | cons body bodies ih =>
    obtain ⟨outcome, rest, between, hone, hrest, rfl⟩ := indexAll_cons_iff.1 h
    obtain ⟨ended, hends, -, rfl⟩ := indexOne_eq_some_iff.1 hone
    rw [List.forall_mem_cons] at houtcomes
    obtain ⟨machine', hends', hstate', hmemory'⟩ :=
      index_above hends houtcomes.1 hstate hmemory
    obtain ⟨after, hafter, hfinal⟩ := ih hrest houtcomes.2 hstate' hmemory'
    exact ⟨after, indexEach_cons_iff.2 ⟨_, _, machine', hends', hafter, rfl⟩, hfinal⟩

/-- On any machine, a body that does not run out of values does the same above further values, and
ends on the same machine above them.  Hence sequences that are indexed one after another by one
indexer come to what they come to when each has a new indexer, if none of them runs out of values:
the results are the same, and so is the model. -/
theorem above_values_and_reused_agree :
    (∀ {σ : Type} (processors : Processors σ) (levels : Nat) (scope : Value) (body : Sequence)
        (machine after : Machine σ) (below : List Value) (result : Except RunError Value),
      (Machine.runInFrame processors levels scope body).Ends machine result after →
      result ≠ .error .stackUnderflow →
      (Machine.runInFrame processors levels scope body).Ends (machine.above below) result
        (after.above below)) ∧
    ∀ (levels : Nat) (root : Value) (bodies : List Sequence) (host other final : Host Model)
        (outcomes : List Outcome),
      indexAll levels root bodies host = some (outcomes, final) →
      (∀ outcome ∈ outcomes, outcome.result ≠ .error .stackUnderflow) →
      other.state = host.state →
      ∃ after, indexEach levels bodies (start root other) =
          some (outcomes.map (·.result), after) ∧
        after.host.state = final.state := by
  constructor
  · intro σ processors levels scope body machine after below result hends hresult
    exact Machine.ends_above below hends hresult
  · intro levels root bodies host other final outcomes hall houtcomes hstate
    have hmemory : (start root other).memory = (Memory.ofRoot root).above [] :=
      (Memory.above_nil _).symm
    exact indexEach_of_indexAll hall houtcomes hstate hmemory

/-- A sequence that leaves a value too many. -/
def unbalanced : Sequence :=
  (Sequence.start "<main>" .top).putNil.putNil.leave

/-- The unbalanced sequence fails alike above other values; and the demonstration, the unbalanced
sequence and the demonstration again give one indexer a class, a failure and the class again. -/
theorem above_values_and_reused_agree_demo :
    (∃ after : Machine Unit,
      (Machine.runInFrame Processors.empty 1 .nil unbalanced).Ends
        (Machine.above [.literal (.integer 7)] ⟨(Memory.ofRoot .nil).enter .nil, ⟨(), #[]⟩⟩)
        (.error (.frameImbalance 1 2)) (after.above [.literal (.integer 7)])) ∧
    ∃ results after, indexEach 4 [Demo.program, unbalanced, Demo.program]
        (start .nil { state := {} }) = some (results, after) ∧
      results.map (fun result => result.toOption.bind Value.class?) =
        [some ⟨2⟩, none, some ⟨2⟩] := by
  obtain ⟨habove, hreused⟩ := above_values_and_reused_agree
  refine ⟨⟨_, habove Processors.empty 1 .nil _ _ _ _ _ rfl (by simp)⟩, ?_⟩
  have hcheck : (indexAll 4 .nil [Demo.program, unbalanced, Demo.program] { state := {} }).any
      (fun ending => ending.1.all (fun outcome =>
          decide (outcome.result.map (fun _ => ()) ≠ .error .stackUnderflow)) &&
        (ending.1.map Outcome.result).map (fun result => result.toOption.bind Value.class?) ==
          [some ⟨2⟩, none, some ⟨2⟩]) = true := by
    decide +kernel
  obtain ⟨⟨outcomes, final⟩, hall, hchecked⟩ := (Option.any_eq_true _ _).1 hcheck
  rw [Bool.and_eq_true, beq_iff_eq, List.all_eq_true] at hchecked
  obtain ⟨hfailures, hclasses⟩ := hchecked
  have houtcomes : ∀ outcome ∈ outcomes, outcome.result ≠ .error .stackUnderflow := by
    intro outcome houtcome hunderflow
    apply of_decide_eq_true (hfailures outcome houtcome)
    rw [hunderflow]
    rfl
  obtain ⟨after, hafter, -⟩ := hreused 4 .nil _ _ _ final outcomes hall houtcomes rfl
  exact ⟨_, after, hafter, hclasses⟩

end Indexing

end ClassIndex
