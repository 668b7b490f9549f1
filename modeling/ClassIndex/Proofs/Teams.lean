import ClassIndex.Proofs.Invariants

/-!
# Indexers that share a model

A `Team` is a number of indexers that work on one model, each with a memory of its own.
`Team.Reached` says which teams indexing can lead to, from the empty model and with nil for the
root of every indexer: indexers join at any time, index any sequences in any order, and are seen
between their runs and in the midst of them.  Teams that index lists of sequences one by one are
among them (`reached_of_indexAll`).

An invariant that the declarations preserve holds of all of these teams (`Reached.upholds`).
-/

namespace ClassIndex

open Declarations (processors)

/-- Indexers at work on one model. -/
structure Team where
  host : Host Model
  /-- The memory of each indexer. -/
  memories : List Memory

namespace Team

/-- Teams that indexing can lead to. -/
inductive Reached : Team → Prop
  | start : Reached ⟨{ state := {} }, []⟩
  /-- A new indexer joins. -/
  | join {host : Host Model} {memories : List Memory} (h : Reached ⟨host, memories⟩) :
      Reached ⟨host, .ofRoot .nil :: memories⟩
  /-- An indexer has come to the end of a run, whatever its result. -/
  | index {host : Host Model} {before behind : List Memory} {memory : Memory} {levels : Nat}
      {body : Sequence} {after : Machine Model} {result : Except RunError Value}
      (h : Reached ⟨host, before ++ memory :: behind⟩)
      (hends : (Indexing.index levels body).Ends ⟨memory, host⟩ result after) :
      Reached ⟨after.host, before ++ after.memory :: behind⟩
  /-- An indexer is in the midst of a run. -/
  | during {host : Host Model} {before behind : List Memory} {memory : Memory} {levels : Nat}
      {body : Sequence} {between : Machine Model}
      (h : Reached ⟨host, before ++ memory :: behind⟩)
      (hpasses : Machine.Passes processors levels memory.root body ⟨memory, host⟩ between) :
      Reached ⟨between.host, before ++ between.memory :: behind⟩
  /-- The outcome of a run is reported. -/
  | report {host : Host Model} {memories : List Memory} (outcome : Indexing.Outcome)
      (h : Reached ⟨host, memories⟩) : Reached ⟨host.reporting outcome.event, memories⟩

theorem Reached.index_new {levels : Nat} {body : Sequence} {host : Host Model}
    {memories : List Memory} {after : Machine Model} {result : Except RunError Value}
    (h : Reached ⟨host, memories⟩)
    (hends : (Indexing.index levels body).Ends (Indexing.start .nil host) result after) :
    Reached ⟨after.host, after.memory :: memories⟩ := by
  have hjoined : Reached ⟨host, [] ++ .ofRoot .nil :: memories⟩ := .join h
  exact .index hjoined hends

theorem reached_of_indexAll {levels : Nat} {bodies : List Sequence} {host final : Host Model}
    {memories : List Memory} {outcomes : List Indexing.Outcome} (h : Reached ⟨host, memories⟩)
    (hall : Indexing.indexAll levels .nil bodies host = some (outcomes, final)) :
    ∃ others, Reached ⟨final, others⟩ := by
  induction bodies generalizing host memories outcomes with
  | nil =>
    rw [Indexing.indexAll_nil] at hall
    cases hall
    exact ⟨memories, h⟩
  | cons body bodies ih =>
    obtain ⟨outcome, rest, between, hone, hrest, -⟩ := Indexing.indexAll_cons_iff.1 hall
    obtain ⟨after, hends, -, rfl⟩ := Indexing.indexOne_eq_some_iff.1 hone
    exact ih (.report outcome (h.index_new hends)) hrest

section Invariants

variable {Good : Host Model → Prop} {Fits : Model → Value → Prop}

/-- The host of a team is good, and all that its indexers hold fits. -/
structure Upholds (Good : Host Model → Prop) (Fits : Model → Value → Prop) (team : Team) :
    Prop where
  good : Good team.host
  memories : ∀ memory ∈ team.memories, memory.All (Fits team.host.state)

theorem Upholds.of_upheld {host : Host Model} {before behind : List Memory} {memory : Memory}
    {after : Machine Model} (h : Upholds Good Fits ⟨host, before ++ memory :: behind⟩)
    (hupheld : Machine.Upheld Good Fits ⟨memory, host⟩ after) :
    Upholds Good Fits ⟨after.host, before ++ after.memory :: behind⟩ := by
  refine ⟨hupheld.upholds.good, fun given hgiven => ?_⟩
  have hothers : ∀ other ∈ before ++ memory :: behind, other.All (Fits after.host.state) :=
    fun other hother => (h.memories other hother).mono hupheld.later
  rw [List.forall_mem_append, List.forall_mem_cons] at hothers
  rcases List.mem_append.1 hgiven with hbefore | hlater
  · exact hothers.1 given hbefore
  · rcases List.mem_cons.1 hlater with rfl | hbehind
    · exact hupheld.upholds.memory
    · exact hothers.2.2 given hbehind

/-- An invariant that holds of the empty model holds of every team, at any time. -/
theorem Reached.upholds {team : Team} (h : team.Reached)
    (preserves : processors.Preserves Good Fits) (hempty : Good { state := {} }) :
    team.Upholds Good Fits := by
  induction h with
  | start => exact ⟨hempty, fun _ hmemory => absurd hmemory List.not_mem_nil⟩
  | join _ ih =>
    refine ⟨ih.good, List.forall_mem_cons.2 ⟨?_, ih.memories⟩⟩
    exact Memory.all_ofRoot (preserves.plain ⟨rfl, rfl⟩)
  | index _ hends ih =>
    have hmemory := ih.memories _ (List.mem_append_right _ List.mem_cons_self)
    exact ih.of_upheld (preserves.index ⟨ih.good, hmemory⟩ hends)
  | during _ hpasses ih =>
    have hmemory := ih.memories _ (List.mem_append_right _ List.mem_cons_self)
    exact ih.of_upheld (preserves.of_passes ⟨ih.good, hmemory⟩ hmemory.alike.root.2 hpasses)
  | report outcome _ ih => exact ⟨preserves.report _ ih.good, ih.memories⟩

end Invariants

end Team

end ClassIndex
