import ClassIndex.Proofs.Reindexing
import Mathlib.Algebra.BigOperators.Group.List.Basic

/-!
# The order of sequences

What a sequence adds to a model does not depend on the model, as long as it does not fail: it is
what it comes to when it is indexed alone (`indexedAlone`, `tracks_indexedAlone`).  So a list of
sequences adds up to the same in whichever order they are indexed.  What does depend on the order is
how a class is introduced, that is its kind and its place in the hierarchy, and which of two methods
of the same name stays.
-/

namespace ClassIndex

/-! ## Models that say the same -/

namespace Model

/-- Two classes, one of each model, with methods of the same names and the same mixins. -/
structure SameMembers (model other : Model) (id id' : ClassId) : Prop where
  fullname : other.fullname id' = model.fullname id
  names : ∀ side name, name ∈ ((model.classAt id).methods side).names ↔
    name ∈ ((other.classAt id').methods side).names
  mixins : ((model.classAt id).mixins.map fun mixin =>
      (mixin.kind, model.fullname mixin.source)).Perm
    ((other.classAt id').mixins.map fun mixin => (mixin.kind, other.fullname mixin.source))

/-- The same names are registered, and classes of the same name have the same members, as their
singleton classes have on every level. -/
structure SameDeclarations (model other : Model) : Prop where
  registered : ∀ name, name ∈ model.catalogue.order.map model.fullname ↔
    name ∈ other.catalogue.order.map other.fullname
  towers : ∀ id ∈ model.catalogue.order, ∀ id' ∈ other.catalogue.order,
    model.fullname id = other.fullname id' → ∀ levels,
      List.Forall₂ (SameMembers model other) (id :: model.tower levels id)
        (id' :: other.tower levels id')

theorem Coherent.mem_fullnames_iff {model : Model} (h : model.Coherent) {name : String} :
    name ∈ model.catalogue.order.map model.fullname ↔ model.Declares (.known (.named name)) := by
  rw [List.mem_map]
  constructor
  · rintro ⟨id, hid, rfl⟩
    obtain ⟨name, hname⟩ := (h.order id).1 hid
    rw [h.fullname _ _ hname]
    exact declares_known hname
  · intro hknown
    obtain ⟨id, hid⟩ := Option.isSome_iff_exists.1 hknown
    exact ⟨id, (h.order id).2 ⟨name, hid⟩, h.fullname _ _ hid⟩

/-- Two coherent models with the same facts and the same mixins. -/
structure Agrees (model other : Model) : Prop where
  coherent : model.Coherent
  coherent' : other.Coherent
  declares : ∀ fact, model.Declares fact ↔ other.Declares fact
  mixins : ∀ path, (model.mixinsAt path : Multiset (MixinKind × String)) = other.mixinsAt path

namespace Agrees

variable {model other : Model} {path : ClassPath} {id id' : ClassId}

theorem sameMembers (h : model.Agrees other) (hid : model.locate path = some id)
    (hid' : other.locate path = some id') : model.SameMembers other id id' where
  fullname := by rw [h.coherent.fullname _ _ hid, h.coherent'.fullname _ _ hid']
  names side name := by
    rw [← methodNames_of_locate hid, ← methodNames_of_locate hid']
    exact h.declares (.method path side name)
  mixins := by
    rw [← mixinsAt_of_locate hid, ← mixinsAt_of_locate hid']
    exact Multiset.coe_eq_coe.1 (h.mixins path)

theorem locate_eq_none_iff (h : model.Agrees other) (path : ClassPath) :
    model.locate path = none ↔ other.locate path = none := by
  rw [← Option.not_isSome_iff_eq_none, ← Option.not_isSome_iff_eq_none]
  exact not_congr (h.declares (.known path))

theorem forall₂_tower (h : model.Agrees other) (levels : Nat) (hid : model.locate path = some id)
    (hid' : other.locate path = some id') :
    List.Forall₂ (SameMembers model other) (model.tower levels id) (other.tower levels id') := by
  induction levels generalizing path id id' with
  | zero => exact .nil
  | succ levels ih =>
    have hsingleton : model.locate path.singleton = (model.classAt id).companion := by
      rw [locate_singleton, hid, Option.bind_some]
    have hsingleton' : other.locate path.singleton = (other.classAt id').companion := by
      rw [locate_singleton, hid', Option.bind_some]
    have hnone := h.locate_eq_none_iff path.singleton
    rw [hsingleton, hsingleton'] at hnone
    unfold tower
    rcases hcompanion : (model.classAt id).companion with _ | companion
    · rw [hnone.1 hcompanion]
      exact .nil
    · rcases hcompanion' : (other.classAt id').companion with _ | companion'
      · rw [hnone.2 hcompanion'] at hcompanion
        cases hcompanion
      · rw [hcompanion] at hsingleton
        rw [hcompanion'] at hsingleton'
        exact .cons (h.sameMembers hsingleton hsingleton') (ih hsingleton hsingleton')

theorem sameDeclarations (h : model.Agrees other) : model.SameDeclarations other where
  registered name := by
    rw [h.coherent.mem_fullnames_iff, h.coherent'.mem_fullnames_iff]
    exact h.declares (.known (.named name))
  towers id hid id' hid' hfullname levels := by
    obtain ⟨name, hname⟩ := (h.coherent.order id).1 hid
    obtain ⟨name', hname'⟩ := (h.coherent'.order id').1 hid'
    rw [h.coherent.fullname _ _ hname, h.coherent'.fullname _ _ hname'] at hfullname
    have hsame : name = name' := hfullname
    subst hsame
    exact .cons (h.sameMembers hname hname') (h.forall₂_tower levels hname hname')

end Agrees

end Model

/-! ## What sequences add up to -/

namespace Indexing

/-- The model of a sequence that is indexed alone. -/
def indexedAlone (body : Sequence) : Model :=
  match (index (body.instructionCount + 1) body).run.run (start .nil { state := {} }) with
  | some (_, after) => after.host.state
  | none => {}

variable {levels : Nat} {bodies : List Sequence} {host final : Host Model}
  {outcomes : List Outcome}

theorem tracks_indexedAlone {body : Sequence} {after : Machine Model} {value : Value}
    (hhost : host.state.Coherent)
    (h : (index levels body).Ends (start .nil host) (.ok value) after) :
    Model.Tracks {} host.state (indexedAlone body) after.host.state := by
  obtain ⟨result, alone, hends⟩ := exists_ends_index (show Value.nil.sequence? = none from rfl)
    (Nat.lt_succ_self body.instructionCount) { state := {} }
  have halone : indexedAlone body = alone.host.state := by
    unfold RunM.Ends at hends
    rw [indexedAlone, hends]
  -- Both runs may go down as deep as the deeper one of them.
  obtain ⟨result', after', hends', hreplays⟩ := replay_start
    (Nat.le_max_right levels (body.instructionCount + 1)) Model.coherent_empty hhost
    (fun fact hfact => absurd hfact (Model.not_declares_empty fact)) hends
  have hdeeper := Machine.ends_of_levels_le (Nat.le_max_left levels (body.instructionCount + 1))
    (ends_index_iff.1 h)
  obtain ⟨rfl, rfl⟩ := (RunM.Ends.iff (ends_index_iff.2 hdeeper)).1 hends'
  rw [halone]
  exact hreplays.tracks value rfl

/-- What a list of sequences adds to a model is what each of them comes to alone. -/
theorem indexAll_adds_up (hhost : host.state.Coherent)
    (h : indexAll levels .nil bodies host = some (outcomes, final))
    (hok : ∀ outcome ∈ outcomes, outcome.result.isOk) :
    (∀ fact, final.state.Declares fact ↔
      host.state.Declares fact ∨ ∃ body ∈ bodies, (indexedAlone body).Declares fact) ∧
    ∀ path, (final.state.mixinsAt path : Multiset (MixinKind × String)) = host.state.mixinsAt path +
      (bodies.map fun body =>
        ((indexedAlone body).mixinsAt path : Multiset (MixinKind × String))).sum := by
  induction bodies generalizing host outcomes with
  | nil =>
    rw [indexAll_nil] at h
    cases h
    simp
  | cons body bodies ih =>
    obtain ⟨outcome, rest, between, hone, hrest, rfl⟩ := indexAll_cons_iff.1 h
    obtain ⟨after, hends, -, rfl⟩ := indexOne_eq_some_iff.1 hone
    rw [List.forall_mem_cons] at hok
    obtain ⟨value, hvalue⟩ : ∃ value, outcome.result = .ok value := by
      rcases hresult : outcome.result with error | value
      · rw [hresult] at hok
        cases hok.1
      · exact ⟨value, rfl⟩
    rw [hvalue] at hends
    have htracks := tracks_indexedAlone hhost hends
    have hcoherent : (after.host.reporting outcome.event).state.Coherent := htracks.coherent'
    obtain ⟨hfacts, hmixins⟩ := ih hcoherent hrest hok.2
    constructor
    · intro fact
      rw [hfacts, List.exists_mem_cons_iff, ← or_assoc]
      exact or_congr_left (htracks.declares fact)
    · intro path
      have hgained := htracks.mixins path
      rw [Model.mixinsAt_of_none (Model.locate_empty path), Multiset.coe_nil, add_zero] at hgained
      rw [hmixins, List.map_cons, List.sum_cons, ← add_assoc]
      exact congrArg (· + _) hgained

/-- Sequences that are indexed in any order, from nothing and without a failure, declare the same:
the same names are registered, and under each of them and on each level above it the methods have
the same names, on the side of the instances and on that of the class, and the mixins are the same,
as often as they occur. -/
theorem indexAll_perm_sameDeclarations {levels levels' : Nat} {bodies bodies' : List Sequence}
    {host host' final final' : Host Model} {outcomes outcomes' : List Outcome}
    (hperm : bodies.Perm bodies') (hhost : host.state = {}) (hhost' : host'.state = {})
    (h : indexAll levels .nil bodies host = some (outcomes, final))
    (h' : indexAll levels' .nil bodies' host' = some (outcomes', final'))
    (hok : ∀ outcome ∈ outcomes, outcome.result.isOk)
    (hok' : ∀ outcome ∈ outcomes', outcome.result.isOk) :
    final.state.SameDeclarations final'.state := by
  have hcoherent : host.state.Coherent := hhost ▸ Model.coherent_empty
  have hcoherent' : host'.state.Coherent := hhost' ▸ Model.coherent_empty
  obtain ⟨hfacts, hmixins⟩ := indexAll_adds_up hcoherent h hok
  obtain ⟨hfacts', hmixins'⟩ := indexAll_adds_up hcoherent' h' hok'
  have hagrees : final.state.Agrees final'.state :=
    { coherent := coherent_of_indexAll hcoherent h
      coherent' := coherent_of_indexAll hcoherent' h'
      declares := by
        intro fact
        rw [hfacts, hfacts', hhost, hhost']
        simp only [hperm.mem_iff]
      mixins := by
        intro path
        rw [hmixins, hmixins', hhost, hhost', (hperm.map _).sum_eq] }
  exact hagrees.sameDeclarations

/-- Opens a class of the demonstration once more, without a superclass. -/
def reopening : Sequence :=
  (Demo.appendClass (Sequence.start "<main>" .top) "Person" none Demo.person .empty).leave

/-- The demonstration and the class that is opened once more register the same names in a different
order, and declare the same. -/
theorem indexAll_perm_sameDeclarations_reopening :
    ∃ outcomes final outcomes' final',
      indexAll 4 .nil [Demo.program, reopening] { state := {} } = some (outcomes, final) ∧
      indexAll 4 .nil [reopening, Demo.program] { state := {} } = some (outcomes', final') ∧
      final.state.catalogue.order.map final.state.fullname = ["Greeting", "Base", "Person"] ∧
      final'.state.catalogue.order.map final'.state.fullname = ["Person", "Greeting", "Base"] ∧
      final.state.SameDeclarations final'.state := by
  have hcheck : (indexAll 4 .nil [Demo.program, reopening] { state := {} }).any (fun ending =>
      ending.1.all (·.result.isOk) &&
        ending.2.state.catalogue.order.map ending.2.state.fullname ==
          ["Greeting", "Base", "Person"]) = true := by
    decide +kernel
  have hcheck' : (indexAll 4 .nil [reopening, Demo.program] { state := {} }).any (fun ending =>
      ending.1.all (·.result.isOk) &&
        ending.2.state.catalogue.order.map ending.2.state.fullname ==
          ["Person", "Greeting", "Base"]) = true := by
    decide +kernel
  obtain ⟨⟨outcomes, final⟩, hall, hrest⟩ := (Option.any_eq_true _ _).1 hcheck
  obtain ⟨⟨outcomes', final'⟩, hall', hrest'⟩ := (Option.any_eq_true _ _).1 hcheck'
  simp only [Bool.and_eq_true, beq_iff_eq, List.all_eq_true] at hrest hrest'
  exact ⟨outcomes, final, outcomes', final', hall, hall', hrest.2, hrest'.2,
    indexAll_perm_sameDeclarations (.swap _ _ _) rfl rfl hall hall' hrest.1 hrest'.1⟩

end Indexing

end ClassIndex
