import ClassIndex.Proofs.Replay
import ClassIndex.Proofs.Termination
import Mathlib.Data.List.Perm.Subperm

/-!
# Indexing again

Sequences that are indexed a second time leave the hierarchy as it is: the second time, the model
says from the start what it says after the first time, so it learns nothing (`replay_index`), and a
model that has grown without learning anything has the classes and the names that it had
(`Model.Coherent.sameHierarchy`).  Methods are replaced and mixins repeated, and lookups may find
what they did not find before; by this a sequence may fail that did not, but not the other way
round.

All of this is about models that indexing can lead to (`Model.Reached`), which are coherent.
-/

namespace ClassIndex

/-! ## Reached models -/

/-- If the value is a class, the model has it. -/
def Value.InModel (model : Model) (value : Value) : Prop :=
  ∀ id, value.class? = some id → id.index < model.classes.size

/-- Models that arise from the empty one by indexing.  An indexer may be used again, with values
left on its stack, and may have any root. -/
inductive Model.Reached : Model → Prop
  | empty : Reached {}
  | index {levels : Nat} {body : Sequence} {machine after : Machine Model}
      {result : Except RunError Value} (h : Reached machine.host.state)
      (hvalues : ∀ value ∈ machine.memory.values, value.InModel machine.host.state)
      (hscopes : ∀ scope ∈ machine.memory.scopes, scope.InModel machine.host.state)
      (hends : (Indexing.index levels body).Ends machine result after) : Reached after.host.state

theorem Value.InModel.alike {model : Model} {value : Value} (h : value.InModel model)
    (hmodel : model.Coherent) : value.Alike model model value := by
  cases value with
  | classRef id =>
    obtain ⟨path, hpath⟩ := hmodel.covers id (h id rfl)
    exact .classes hpath hpath
  | methodRef id => exact .methods id id
  | nil | literal _ | sequence _ => exact .plain ⟨rfl, rfl⟩

theorem Model.coherent_of_index {levels : Nat} {body : Sequence} {machine after : Machine Model}
    {result : Except RunError Value} (h : machine.host.state.Coherent)
    (hvalues : ∀ value ∈ machine.memory.values, value.InModel machine.host.state)
    (hscopes : ∀ scope ∈ machine.memory.scopes, scope.InModel machine.host.state)
    (hends : (Indexing.index levels body).Ends machine result after) :
    after.host.state.Coherent := by
  -- Replayed on its own model, the run ends as it does.
  obtain ⟨result', after', hends', hreplays⟩ := Indexing.replay_index (Nat.le_refl levels) h h
    (fun _ hfact => hfact) (Memory.alike_self (fun value hvalue => (hvalues value hvalue).alike h)
      fun scope hscope => (hscopes scope hscope).alike h) hends
  obtain ⟨-, rfl⟩ := (RunM.Ends.iff hends).1 hends'
  exact hreplays.coherent

theorem Model.Reached.coherent {model : Model} (h : model.Reached) : model.Coherent := by
  induction h with
  | empty => exact coherent_empty
  | index _ hvalues hscopes hends ih => exact coherent_of_index ih hvalues hscopes hends

namespace Model

/-! ## Nothing learnt -/

/-- The two models have the same classes in the same places, with methods of the same names. -/
structure SameHierarchy (model after : Model) : Prop where
  size : after.classes.size = model.classes.size
  order : after.catalogue.order = model.catalogue.order
  find : ∀ name, after.catalogue.find? name = model.catalogue.find? name
  fullname : ∀ id, after.fullname id = model.fullname id
  kind : ∀ id, (after.classAt id).kind = (model.classAt id).kind
  superclass : ∀ id, (after.classAt id).superclass = (model.classAt id).superclass
  enclosing : ∀ id, (after.classAt id).enclosing = (model.classAt id).enclosing
  companion : ∀ id, (after.classAt id).companion = (model.classAt id).companion
  names : ∀ id side, ((after.classAt id).methods side).names =
    ((model.classAt id).methods side).names

theorem eq_of_prefix_of_nodup {α : Type} {list after : List α} (h : list <+: after)
    (hnodup : after.Nodup) (hsubset : after ⊆ list) : after = list :=
  (h.eq_of_length_le (hnodup.subperm hsubset).length_le).symm

section

variable {model after : Model}

theorem Extends.locate_eq (h : model.Extends after)
    (hknown : ∀ fact, after.Declares fact → model.Declares fact) : after.locate = model.locate := by
  funext path
  rcases hafter : after.locate path with _ | id
  · rcases hmodel : model.locate path with _ | id
    · rfl
    · rw [h.locate path id hmodel] at hafter
      cases hafter
  · have hpath : (model.locate path).isSome := hknown (.known path) (declares_known hafter)
    obtain ⟨id', hid'⟩ := Option.isSome_iff_exists.1 hpath
    rw [← hafter, hid', h.locate path id' hid']

theorem Extends.size_eq (h : model.Extends after) (hmodel : model.Coherent)
    (hafter : after.Coherent) (hlocate : after.locate = model.locate) :
    after.classes.size = model.classes.size := by
  have hle := h.size_le
  by_contra hne
  have hlt : model.classes.size < after.classes.size := by omega
  obtain ⟨path, hpath⟩ := hafter.covers ⟨model.classes.size⟩ hlt
  rw [hlocate] at hpath
  exact Nat.lt_irrefl _ (hmodel.bound path _ hpath)

theorem Coherent.forall_classAt (hmodel : model.Coherent)
    (hsize : after.classes.size = model.classes.size) {P : ClassRecord → ClassRecord → Prop}
    (hdefault : P default default)
    (hclasses : ∀ path id, model.locate path = some id → P (model.classAt id) (after.classAt id))
    (id : ClassId) : P (model.classAt id) (after.classAt id) := by
  by_cases hbound : id.index < model.classes.size
  · obtain ⟨path, hpath⟩ := hmodel.covers id hbound
    exact hclasses path id hpath
  · rw [classAt_of_size_le (by omega), classAt_of_size_le (by omega)]
    exact hdefault

/-- A model that has grown without learning anything has the hierarchy that it had. -/
theorem Coherent.sameHierarchy (hmodel : model.Coherent) (hafter : after.Coherent)
    (h : model.Extends after) (hknown : ∀ fact, after.Declares fact → model.Declares fact) :
    model.SameHierarchy after := by
  have hlocate := h.locate_eq hknown
  have hsize := h.size_eq hmodel hafter hlocate
  have hrecords : ∀ id, (model.classAt id).Extends (after.classAt id) := by
    apply hmodel.forall_classAt hsize (P := ClassRecord.Extends) (.refl _)
    intro path id hpath
    exact h.records id (hmodel.bound path id hpath)
  have hcompanion : ∀ id, (after.classAt id).companion = (model.classAt id).companion := by
    apply hmodel.forall_classAt hsize (P := fun record record' =>
      record'.companion = record.companion) rfl
    intro path id hpath
    have hsingleton := congrFun hlocate path.singleton
    rwa [locate_singleton, locate_singleton, hlocate, hpath, Option.bind_some,
      Option.bind_some] at hsingleton
  have hnames : ∀ side id, ((after.classAt id).methods side).names =
      ((model.classAt id).methods side).names := by
    intro side
    apply hmodel.forall_classAt hsize (P := fun record record' =>
      (record'.methods side).names = (record.methods side).names) rfl
    intro path id hpath
    apply eq_of_prefix_of_nodup ((hrecords id).names side) (hafter.indexed id side).nodup
    intro name hname
    rw [← methodNames_of_locate (hlocate ▸ hpath)] at hname
    rw [← methodNames_of_locate hpath]
    exact hknown (.method path side name) hname
  have horder : after.catalogue.order = model.catalogue.order := by
    apply eq_of_prefix_of_nodup h.order hafter.nodup
    intro id hid
    rw [hafter.order, hlocate, ← hmodel.order] at hid
    exact hid
  exact
    { size := hsize
      order := horder
      find := fun name => congrFun hlocate (.named name)
      fullname := fun id => (hrecords id).fullname
      kind := fun id => (hrecords id).kind
      superclass := fun id => (hrecords id).superclass
      enclosing := fun id => (hrecords id).enclosing
      companion := hcompanion
      names := fun id side => hnames side id }

end

end Model

namespace Indexing

variable {levels : Nat} {root : Value} {bodies : List Sequence} {host final : Host Model}
  {outcomes : List Outcome}

/-! ## Lists of sequences -/

theorem forall_mem_scopes_start {P : Value → Prop} (hroot : P root) (host : Host Model) :
    ∀ scope ∈ (start root host).memory.scopes, P scope := by
  intro scope hscope
  rw [List.mem_singleton.1 hscope]
  exact hroot

theorem exists_ends_index {body : Sequence} (hroot : root.sequence? = none)
    (hlevels : body.instructionCount < levels) (host : Host Model) :
    ∃ result after, (index levels body).Ends (start root host) result after :=
  exists_ends_of_plain (fun _ hvalue => absurd hvalue List.not_mem_nil)
    (forall_mem_scopes_start hroot host) hlevels

theorem exists_indexAll (hroot : root.sequence? = none)
    (hlevels : ∀ body ∈ bodies, body.instructionCount < levels) (host : Host Model) :
    ∃ outcomes final, indexAll levels root bodies host = some (outcomes, final) := by
  induction bodies generalizing host with
  | nil => exact ⟨[], host, indexAll_nil host⟩
  | cons body bodies ih =>
    rw [List.forall_mem_cons] at hlevels
    obtain ⟨result, after, hends⟩ := exists_ends_index hroot hlevels.1 host
    set outcome : Outcome := ⟨body, result⟩
    obtain ⟨outcomes, final, hrest⟩ := ih hlevels.2 (after.host.reporting outcome.event)
    have hone : indexOne levels root body host =
        some (outcome, after.host.reporting outcome.event) :=
      indexOne_eq_some_iff.2 ⟨after, hends, rfl, rfl⟩
    exact ⟨_, final, indexAll_cons_iff.2 ⟨outcome, outcomes, _, hone, hrest, rfl⟩⟩

theorem grows_of_index {body : Sequence} {machine after : Machine Model}
    {result : Except RunError Value} (h : (index levels body).Ends machine result after) :
    machine.host.state.Grows after.host.state :=
  Declarations.grows_of_runInFrame (ends_index_iff.1 h)

theorem indexAll_keeps {P : Model → Prop} (h : indexAll levels root bodies host =
      some (outcomes, final)) (hhost : P host.state)
    (hkeeps : ∀ body (host : Host Model) result after,
      (index levels body).Ends (start root host) result after → P host.state →
        P after.host.state) : P final.state := by
  induction bodies generalizing host outcomes with
  | nil =>
    rw [indexAll_nil] at h
    cases h
    exact hhost
  | cons body bodies ih =>
    obtain ⟨outcome, rest, between, hone, hrest, rfl⟩ := indexAll_cons_iff.1 h
    obtain ⟨after, hends, -, hbetween⟩ := indexOne_eq_some_iff.1 hone
    refine ih hrest ?_
    rw [hbetween]
    exact hkeeps body host _ after hends hhost

theorem grows_of_indexAll (h : indexAll levels root bodies host = some (outcomes, final)) :
    host.state.Grows final.state :=
  indexAll_keeps h (.refl host.state) fun _ _ _ _ hends hgrows =>
    hgrows.trans (grows_of_index hends)

/-- If the first outcome is a failure, so is the second one. -/
def Outcome.FailsAgain (outcome outcome' : Outcome) : Prop :=
  outcome'.body = outcome.body ∧
    ∀ error, outcome.result = .error error → ∃ error', outcome'.result = .error error'

theorem coherent_of_start {body : Sequence} {after : Machine Model}
    {result : Except RunError Value} (h : host.state.Coherent)
    (hends : (index levels body).Ends (start .nil host) result after) :
    after.host.state.Coherent := by
  have hnil : Value.nil.InModel host.state := by
    intro id hid
    cases hid
  exact Model.coherent_of_index h (fun value hvalue => absurd hvalue List.not_mem_nil)
    (forall_mem_scopes_start hnil host) hends

theorem coherent_of_indexAll (hhost : host.state.Coherent)
    (h : indexAll levels .nil bodies host = some (outcomes, final)) : final.state.Coherent :=
  indexAll_keeps h hhost fun _ _ _ _ hends hcoherent => coherent_of_start hcoherent hends

theorem replay_start {levels' : Nat} {body : Sequence} {other : Host Model} {after : Machine Model}
    {result : Except RunError Value} (hlevels : levels ≤ levels') (hhost : host.state.Coherent)
    (hother : other.state.Coherent)
    (hfacts : ∀ fact, host.state.Declares fact → other.state.Declares fact)
    (h : (index levels body).Ends (start .nil host) result after) :
    ∃ result' after', (index levels' body).Ends (start .nil other) result' after' ∧
      host.state.Replays other.state after.host.state after'.host.state result result' := by
  have hmemory : (start .nil host).memory.Alike (Value.Alike host.state other.state) []
      (start .nil other).memory :=
    Memory.alike_self (by nofun) (forall_mem_scopes_start .nil host)
  exact replay_index hlevels hhost hother hfacts hmemory h

/-- A model that says from the start what indexing some sequences comes to does not learn anything
from them. -/
theorem indexAll_of_known {other : Host Model} (hhost : host.state.Coherent)
    (hother : other.state.Coherent)
    (hknown : ∀ fact, final.state.Declares fact → other.state.Declares fact)
    (h : indexAll levels .nil bodies host = some (outcomes, final)) :
    ∃ outcomes' final', indexAll levels .nil bodies other = some (outcomes', final') ∧
      final'.state.Coherent ∧ (∀ fact, final'.state.Declares fact → other.state.Declares fact) ∧
      List.Forall₂ Outcome.FailsAgain outcomes outcomes' := by
  induction bodies generalizing host other outcomes with
  | nil =>
    rw [indexAll_nil] at h
    cases h
    exact ⟨[], other, indexAll_nil other, hother, fun _ hfact => hfact, .nil⟩
  | cons body bodies ih =>
    obtain ⟨outcome, rest, between, hone, hrest, rfl⟩ := indexAll_cons_iff.1 h
    obtain ⟨after, hends, hbody, rfl⟩ := indexOne_eq_some_iff.1 hone
    have hafter := coherent_of_start hhost hends
    have hlater : ∀ fact, after.host.state.Declares fact → other.state.Declares fact :=
      fun fact hfact => hknown fact ((grows_of_indexAll hrest hafter.indexed).2.declares hfact)
    have hfacts : ∀ fact, host.state.Declares fact → other.state.Declares fact :=
      fun fact hfact => hlater fact ((grows_of_index hends hhost.indexed).2.declares hfact)
    obtain ⟨result', after', hends', hreplays⟩ :=
      replay_start (Nat.le_refl levels) hhost hother hfacts hends
    set outcome' : Outcome := ⟨body, result'⟩
    have hone' : indexOne levels .nil body other =
        some (outcome', after'.host.reporting outcome'.event) :=
      indexOne_eq_some_iff.2 ⟨after', hends', rfl, rfl⟩
    -- The second model has learnt nothing, and it has forgotten nothing either.
    have hlearnt : ∀ fact, after'.host.state.Declares fact → other.state.Declares fact :=
      fun fact hfact => (hreplays.declares fact hfact).elim id (hlater fact)
    have hkept : ∀ fact, final.state.Declares fact → after'.host.state.Declares fact :=
      fun fact hfact => (grows_of_index hends' hother.indexed).2.declares (hknown fact hfact)
    obtain ⟨outcomes', final', hrest', hcoherent, hdeclares, houtcomes⟩ :=
      ih (show (after.host.reporting _).state.Coherent from hafter)
        (show (after'.host.reporting outcome'.event).state.Coherent from hreplays.coherent) hkept
        hrest
    exact ⟨outcome' :: outcomes', final', indexAll_cons_iff.2 ⟨_, _, _, hone', hrest', rfl⟩,
      hcoherent, fun fact hfact => hlearnt fact (hdeclares fact hfact),
      .cons ⟨hbody.symm, hreplays.failed⟩ houtcomes⟩

/-- Sequences that are indexed again, on the model that they left, leave its hierarchy as it is, and
those that failed fail again.  Neither needs more levels the second time, and the first time they
come to an end if bodies may nest as deep as there are instructions. -/
theorem indexAll_again_sameHierarchy (levels : Nat) (bodies : List Sequence) (host : Host Model)
    (hreached : host.state.Reached) :
    ((∀ body ∈ bodies, body.instructionCount < levels) →
      ∃ outcomes final, indexAll levels .nil bodies host = some (outcomes, final)) ∧
    ∀ outcomes final, indexAll levels .nil bodies host = some (outcomes, final) →
      ∃ outcomes' final', indexAll levels .nil bodies final = some (outcomes', final') ∧
        final.state.SameHierarchy final'.state ∧
        List.Forall₂ Outcome.FailsAgain outcomes outcomes' := by
  refine ⟨fun hlevels => exists_indexAll rfl hlevels host, fun outcomes final h => ?_⟩
  have hhost := hreached.coherent
  have hfinal := coherent_of_indexAll hhost h
  obtain ⟨outcomes', final', hagain, hcoherent, hdeclares, houtcomes⟩ :=
    indexAll_of_known hhost hfinal (fun _ hfact => hfact) h
  have hextends := (grows_of_indexAll hagain hfinal.indexed).2
  exact ⟨outcomes', final', hagain, hfinal.sameHierarchy hcoherent hextends hdeclares, houtcomes⟩

/-- Defines a class below the method `greet` of a module, if there is one; otherwise below none. -/
def borrowing : Sequence :=
  (Sequence.start "<main>" .top)
    |>.putSpecial 3
    |>.putNil
    |>.getConstant "Greeting"
    |>.putSymbol "greet"
    |>.call "instance_method" 1
    |>.defineClass "Loan" Demo.base.leave .empty
    |>.leave

/-- A sequence that finds a method only the second time, the sequence that defines the method, and
one that fails. -/
def revisited : List Sequence :=
  [borrowing, Demo.program, unbalanced]

/-- The second time the class cannot be defined any more, since a method is no superclass; but it is
still there, and so is all else. -/
theorem indexAll_again_sameHierarchy_revisited :
    ∃ outcomes final outcomes' final',
      indexAll 4 .nil revisited { state := {} } = some (outcomes, final) ∧
      indexAll 4 .nil revisited final = some (outcomes', final') ∧
      outcomes.map (·.result.isOk) = [true, true, false] ∧
      outcomes'.map (·.result.isOk) = [false, true, false] ∧
      final.state.classes.size = 5 ∧ final.state.SameHierarchy final'.state := by
  have hcheck : (indexAll 4 .nil revisited { state := {} }).any (fun ending =>
      ending.1.map (·.result.isOk) == [true, true, false] && ending.2.state.classes.size == 5 &&
        (indexAll 4 .nil revisited ending.2).any fun again =>
          again.1.map (·.result.isOk) == [false, true, false]) = true := by
    decide +kernel
  obtain ⟨⟨outcomes, final⟩, hall, hrest⟩ := (Option.any_eq_true _ _).1 hcheck
  simp only [Bool.and_eq_true, beq_iff_eq] at hrest
  obtain ⟨⟨hfirst, hsize⟩, hagain⟩ := hrest
  obtain ⟨-, hsecond⟩ := indexAll_again_sameHierarchy 4 revisited { state := {} } .empty
  obtain ⟨outcomes', final', hall', hsame, -⟩ := hsecond outcomes final hall
  rw [hall', Option.any_some, beq_iff_eq] at hagain
  exact ⟨outcomes, final, outcomes', final', hall, hall', hfirst, hagain, hsize, hsame⟩

end Indexing

end ClassIndex
