import ClassIndex.Indexing.Session
import ClassIndex.Proofs.Steps

/-!
# Sessions

A list of sequences is indexed one sequence after the other.  `indexAll` does so with a new indexer
for each of them, `indexEach` with one indexer for all.  Either way the first sequence is indexed
from the start, and the others from where that ended: `indexAll_cons_iff` and `indexEach_cons_iff`
say how.
-/

namespace ClassIndex

namespace Indexing

/-- Indexes sequences one after another with one indexer, and yields what came of each. -/
def indexEach (levels : Nat) (bodies : List Sequence) :
    StateT (Machine Model) Option (List (Except RunError Value)) :=
  bodies.mapM fun body => (index levels body).run

/-- A run over a list is the run of its first element, followed by that over the others. -/
theorem mapM_cons_eq_some_iff {σ α β : Type} {run : α → StateT σ Option β} {first : α}
    {rest : List α} {state final : σ} {results : List β} :
    (first :: rest).mapM run state = some (results, final) ↔
      ∃ result others between, run first state = some (result, between) ∧
        rest.mapM run between = some (others, final) ∧ results = result :: others := by
  rw [List.mapM_cons]
  show Option.bind _ _ = _ ↔ _
  rw [Option.bind_eq_some_iff]
  constructor
  · rintro ⟨⟨result, between⟩, hfirst, hbind⟩
    obtain ⟨⟨others, final'⟩, hrest, hreturn⟩ := Option.bind_eq_some_iff.1 hbind
    cases hreturn
    exact ⟨result, others, between, hfirst, hrest, rfl⟩
  · rintro ⟨result, others, between, hfirst, hrest, rfl⟩
    exact ⟨(result, between), hfirst, Option.bind_eq_some_iff.2 ⟨(others, final), hrest, rfl⟩⟩

section Lists

variable {levels : Nat} {root : Value} {body : Sequence} {bodies : List Sequence}

theorem ends_index_iff {machine after : Machine Model} {result : Except RunError Value} :
    (index levels body).Ends machine result after ↔
      (Machine.runInFrame Declarations.processors levels machine.memory.root body).Ends machine
        result after :=
  RunM.ends_memory_bind_iff

/-- A sequence is indexed by a new indexer, and its outcome is reported. -/
theorem indexOne_eq_some_iff {host final : Host Model} {outcome : Outcome} :
    indexOne levels root body host = some (outcome, final) ↔
      ∃ after, (index levels body).Ends (start root host) outcome.result after ∧
        outcome.body = body ∧ final = after.host.reporting outcome.event := by
  unfold indexOne RunM.Ends
  rw [Option.bind_eq_bind, Option.bind_eq_some_iff]
  constructor
  · rintro ⟨⟨result, after⟩, hrun, hreturn⟩
    cases hreturn
    exact ⟨after, hrun, rfl, rfl⟩
  · rintro ⟨after, hrun, rfl, rfl⟩
    exact ⟨_, hrun, rfl⟩

theorem indexAll_nil (host : Host Model) : indexAll levels root [] host = some ([], host) := rfl

/-- The outcomes of a list are that of its first sequence, and those of the others on the host that
it leaves. -/
theorem indexAll_cons_iff {host final : Host Model} {outcomes : List Outcome} :
    indexAll levels root (body :: bodies) host = some (outcomes, final) ↔
      ∃ outcome rest between, indexOne levels root body host = some (outcome, between) ∧
        indexAll levels root bodies between = some (rest, final) ∧
        outcomes = outcome :: rest :=
  mapM_cons_eq_some_iff

theorem indexEach_nil (machine : Machine Model) :
    indexEach levels [] machine = some ([], machine) := rfl

theorem indexEach_cons_iff {machine after : Machine Model}
    {results : List (Except RunError Value)} :
    indexEach levels (body :: bodies) machine = some (results, after) ↔
      ∃ result rest between, (index levels body).Ends machine result between ∧
        indexEach levels bodies between = some (rest, after) ∧ results = result :: rest :=
  mapM_cons_eq_some_iff

end Lists

end Indexing

end ClassIndex
