import ClassIndex.Model.Liveness
import ClassIndex.Proofs.Coherence
import Mathlib.Algebra.Order.BigOperators.Group.List
import Mathlib.Algebra.Order.Group.Nat
import Mathlib.Algebra.Ring.Nat
import Mathlib.Tactic.Tauto

/-!
# What the roots keep alive

The search for live entities takes one pending entity at each step, and it is given as many steps
as there are roots and links.  They suffice: `openLinks` counts the links that have not been
followed, and whoever is reached takes its links along (`openLinks_cons`).  So the search comes to
its end, and what it has reached then holds the roots and is closed under links
(`mem_live_of_root`, `mem_live_of_kept`).  Hence registered classes are live, and with them all
classes in their towers (`Coherent.isLive`).  A sweep takes away nothing but the links to what is
not live (`classAt_sweep`, `methodAt_sweep`).
-/

namespace ClassIndex

theorem sum_map_filter_ne_add_le {α : Type} [DecidableEq α] (weight : α → Nat) {items : List α}
    {item : α} (h : item ∈ items) :
    ((items.filter (· ≠ item)).map weight).sum + weight item ≤ (items.map weight).sum := by
  induction items with
  | nil => cases h
  | cons first rest ih =>
    by_cases heq : first = item
    · -- The others weigh no more without the item than with it.
      have hrest : ((rest.filter (· ≠ item)).map weight).sum ≤ (rest.map weight).sum :=
        ((List.filter_sublist).map weight).sum_le_sum fun _ _ => Nat.zero_le _
      rw [List.filter_cons_of_neg (by simp [heq]), List.map_cons, List.sum_cons, heq]
      omega
    · have hrest := ih ((List.mem_cons.1 h).resolve_left (Ne.symm heq))
      rw [List.filter_cons_of_pos (by simp [heq]), List.map_cons, List.sum_cons, List.map_cons,
        List.sum_cons]
      omega

namespace Model

variable {model : Model}

/-! ## Links -/

theorem mem_entities_class {id : ClassId} (h : id.index < model.classes.size) :
    .classEntity id ∈ model.entities :=
  List.mem_append_left _ (List.mem_map.2 ⟨id.index, List.mem_range.2 h, rfl⟩)

theorem mem_entities_method {id : MethodId} (h : id.index < model.methods.size) :
    .methodEntity id ∈ model.entities :=
  List.mem_append_right _ (List.mem_map.2 ⟨id.index, List.mem_range.2 h, rfl⟩)

/-- Only entities of the model have links. -/
theorem keptBy_of_not_mem {entity : Entity} (h : entity ∉ model.entities) :
    model.keptBy entity = [] := by
  cases entity with
  | classEntity id =>
    have hbound : model.classes.size ≤ id.index := by
      by_contra hlt
      exact h (mem_entities_class (by omega))
    rw [keptBy, classAt_of_size_le hbound]
    rfl
  | methodEntity id =>
    have hbound : model.methods.size ≤ id.index := by
      by_contra hlt
      exact h (mem_entities_method (by omega))
    rw [keptBy, methodAt, Array.getElem?_eq_none hbound]
    rfl

/-- The number of links that start from entities which were not reached. -/
def openLinks (model : Model) (reached : List Entity) : Nat :=
  ((model.entities.filter (· ∉ reached)).map fun entity => (model.keptBy entity).length).sum

/-- Whoever is reached takes its links along. -/
theorem openLinks_cons {entity : Entity} {reached : List Entity} (h : entity ∉ reached) :
    model.openLinks (entity :: reached) + (model.keptBy entity).length ≤
      model.openLinks reached := by
  have hfilter : model.entities.filter (· ∉ entity :: reached) =
      (model.entities.filter (· ∉ reached)).filter (· ≠ entity) := by
    rw [List.filter_filter]
    refine List.filter_congr fun other _ => ?_
    simp [not_or]
  unfold openLinks
  rw [hfilter]
  by_cases hmem : entity ∈ model.entities
  · exact sum_map_filter_ne_add_le (fun entity => (model.keptBy entity).length)
      (List.mem_filter.2 ⟨hmem, decide_eq_true h⟩)
  · rw [keptBy_of_not_mem hmem]
    exact ((List.filter_sublist).map _).sum_le_sum fun _ _ => Nat.zero_le _

theorem openLinks_nil : model.openLinks [] = (model.entities.flatMap model.keptBy).length := by
  simp [openLinks, List.length_flatMap]

/-! ## The search -/

/-- With enough steps the search keeps what it has, finds what is pending, and follows every
link. -/
theorem reach_closed {steps : Nat} {pending reached : List Entity}
    (hsteps : pending.length + model.openLinks reached ≤ steps)
    (hlinks : ∀ entity ∈ reached, ∀ next ∈ model.keptBy entity, next ∈ reached ∨ next ∈ pending) :
    (∀ entity ∈ reached ++ pending, entity ∈ model.reach steps pending reached) ∧
      ∀ entity ∈ model.reach steps pending reached, ∀ next ∈ model.keptBy entity,
        next ∈ model.reach steps pending reached := by
  induction steps generalizing pending reached with
  | zero =>
    have hpending : pending = [] := List.length_eq_zero_iff.1 (by omega)
    subst hpending
    simp only [reach, List.append_nil, List.not_mem_nil, or_false] at hlinks ⊢
    exact ⟨fun _ h => h, hlinks⟩
  | succ steps ih =>
    cases pending with
    | nil =>
      simp only [reach, List.append_nil, List.not_mem_nil, or_false] at hlinks ⊢
      exact ⟨fun _ h => h, hlinks⟩
    | cons first pending =>
      rw [List.length_cons] at hsteps
      by_cases hfirst : first ∈ reached
      · rw [reach, if_pos hfirst]
        obtain ⟨hkeeps, hclosed⟩ := ih (show pending.length + model.openLinks reached ≤ steps by
          omega) (by
            intro entity hentity next hnext
            have := hlinks entity hentity next hnext
            rw [List.mem_cons] at this
            rcases this with hreached | rfl | hpending
            exacts [Or.inl hreached, Or.inl hfirst, Or.inr hpending])
        refine ⟨fun entity hentity => hkeeps entity ?_, hclosed⟩
        rw [List.mem_append, List.mem_cons] at hentity
        rw [List.mem_append]
        rcases hentity with hreached | rfl | hpending
        exacts [Or.inl hreached, Or.inl hfirst, Or.inr hpending]
      · -- The links of the first entity become pending, and are not open any more.
        rw [reach, if_neg hfirst]
        have hopen := model.openLinks_cons hfirst
        have hcount : (model.keptBy first ++ pending).length +
            model.openLinks (first :: reached) ≤ steps := by
          rw [List.length_append]
          omega
        obtain ⟨hkeeps, hclosed⟩ := ih hcount (by
            intro entity hentity next hnext
            rw [List.mem_cons, List.mem_append]
            rcases List.mem_cons.1 hentity with rfl | hreached
            · exact Or.inr (Or.inl hnext)
            · have := hlinks entity hreached next hnext
              rw [List.mem_cons] at this
              tauto)
        refine ⟨fun entity hentity => hkeeps entity ?_, hclosed⟩
        simp only [List.mem_append, List.mem_cons] at hentity ⊢
        tauto

section Live

variable {roots : List Entity}

theorem live_closed :
    (∀ entity ∈ roots, entity ∈ model.live roots) ∧
      ∀ entity ∈ model.live roots, ∀ next ∈ model.keptBy entity, next ∈ model.live roots := by
  have hsteps : roots.length + model.openLinks [] ≤
      roots.length + (model.entities.flatMap model.keptBy).length := by
    rw [openLinks_nil]
  exact reach_closed hsteps fun _ h => absurd h List.not_mem_nil

theorem mem_live_of_root {entity : Entity} (h : entity ∈ roots) : entity ∈ model.live roots :=
  live_closed.1 entity h

theorem mem_live_of_kept {entity next : Entity} (h : entity ∈ model.live roots)
    (hnext : next ∈ model.keptBy entity) : next ∈ model.live roots :=
  live_closed.2 entity h next hnext

theorem classEntity_mem_keptBy_of_companion {id companion : ClassId}
    (h : (model.classAt id).companion = some companion) :
    .classEntity companion ∈ model.keptBy (.classEntity id) := by
  simp [keptBy, h]

/-- Classes with a path are live as long as the registered ones are. -/
theorem Coherent.isLive (h : model.Coherent) (hroots : model.registered ⊆ roots) {path : ClassPath}
    {id : ClassId} (hid : model.locate path = some id) : model.isLive roots id = true := by
  refine decide_eq_true ?_
  induction path using ClassPath.tower_induction generalizing id with
  | named name =>
    have horder : id ∈ model.catalogue.order := (h.order id).2 ⟨name, hid⟩
    exact mem_live_of_root (hroots (List.mem_map.2 ⟨id, horder, rfl⟩))
  | singleton path ih =>
    rw [locate_singleton] at hid
    obtain ⟨base, hbase, hcompanion⟩ := Option.bind_eq_some_iff.1 hid
    exact mem_live_of_kept (ih hbase) (classEntity_mem_keptBy_of_companion hcompanion)

/-- Nothing changes in a class but that it may lose the class it is attached to. -/
theorem classAt_sweep (model : Model) (roots : List Entity) (id : ClassId) :
    (model.sweep roots).classAt id =
      { model.classAt id with
        attached := (model.classAt id).attached.filter (model.isLive roots) } := by
  unfold classAt sweep
  rw [Array.getElem?_map]
  cases model.classes[id.index]? <;> rfl

/-- Nothing changes in a method but that it may lose its owner. -/
theorem methodAt_sweep (model : Model) (roots : List Entity) (id : MethodId) :
    (model.sweep roots).methodAt id =
      { model.methodAt id with
        owner := (model.methodAt id).owner.filter (model.isLive roots) } := by
  unfold methodAt sweep
  rw [Array.getElem?_map]
  cases model.methods[id.index]? <;> rfl

end Live

end Model

end ClassIndex
