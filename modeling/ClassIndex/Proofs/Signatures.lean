import ClassIndex.Code.Parameter
import Mathlib.Data.List.Basic

/-!
# Signatures by lists

A layout assigns the locals of a body to parameters.  `ParameterLayout.assign` says so with plain
lists: the first locals are required, those that follow are paired with the defaults until one of
both lists ends, and the positions of the rest parameters count only if there is a local at them.
`Sequence.signature_eq_assign` says that reading the parameters off a body, place by place, comes to
the same.

It follows that the required and the optional parameters together are a first part of the locals,
and that the kinds of parameters come in the order of a declaration (`Sequence.signature_in_order`).

The only sums in this are the positions of optional parameters.  Added up in machine words they may
wrap around; a layout with `ParameterLayout.FitsWords` has none that does.
-/

namespace ClassIndex

namespace ParameterLayout

/-- The parameters of a layout, given the locals. -/
def assign (layout : ParameterLayout) (locals : List String) : List Parameter :=
  let lead := layout.lead.getD 0
  let single (position : Option Nat) : List String :=
    position.elim [] fun place => (locals.drop place).take 1
  (locals.take lead).map .required ++
    List.zipWith .optional (locals.drop lead) (layout.defaults.getD []) ++
    (single layout.rest).map .rest ++
    (layout.keywords.getD []).map .ofKeyword ++
    (single layout.keywordRest).map .keywordRest

end ParameterLayout

/-- Looking up a name for each value by its place is pairing the values with the names. -/
theorem filterMap_zipIdx_eq_zipWith {α β γ : Type} (pair : α → β → γ) (names : List α)
    (first : Nat) (values : List β) (start : Nat) :
    (values.zipIdx start).filterMap (fun (value, place) =>
        names[first + place]?.map fun name => pair name value) =
      List.zipWith pair (names.drop (first + start)) values := by
  induction values generalizing start with
  | nil => rw [List.zipIdx_nil, List.filterMap_nil, List.zipWith_nil_right]
  | cons value values ih =>
    rw [List.zipIdx_cons, List.filterMap_cons, ih]
    rcases hname : names[first + start]? with _ | name
    · -- There is no name at this place, and so none at a later one.
      have hend : names.length ≤ first + start := List.getElem?_eq_none_iff.1 hname
      have hlater : names.length ≤ first + (start + 1) := Nat.le_succ_of_le hend
      simp only [hname, Option.map_none]
      rw [List.drop_eq_nil_of_le hend, List.drop_eq_nil_of_le hlater, List.zipWith_nil_left,
        List.zipWith_nil_left]
    · obtain ⟨hlt, hget⟩ := List.getElem?_eq_some_iff.1 hname
      simp only [hname, Option.map_some]
      rw [List.drop_eq_getElem_cons hlt, hget, List.zipWith_cons_cons]
      rfl

namespace Sequence

theorem requiredParameters_eq (s : Sequence) :
    s.requiredParameters = (s.locals.take (s.parameters.lead.getD 0)).map .required := by
  unfold requiredParameters
  cases s.parameters.lead with
  | some count => rfl
  | none => rw [Option.getD_none, List.take_zero, List.map_nil]

theorem optionalParameters_eq (s : Sequence) :
    s.optionalParameters = List.zipWith .optional (s.locals.drop (s.parameters.lead.getD 0))
      (s.parameters.defaults.getD []) :=
  filterMap_zipIdx_eq_zipWith Parameter.optional s.locals (s.parameters.lead.getD 0) _ 0

theorem toList_localAt? (s : Sequence) (position : Option Nat) :
    (s.localAt? position).toList =
      position.elim [] fun place => (s.locals.drop place).take 1 := by
  cases position with
  | none => rfl
  | some place =>
    show s.locals[place]?.toList = (s.locals.drop place).take 1
    rw [List.take_one, List.head?_drop]

/-- The parameters that are read off a body are those that its layout assigns. -/
theorem signature_eq_assign (s : Sequence) : s.signature = s.parameters.assign s.locals := by
  unfold signature ParameterLayout.assign
  rw [requiredParameters_eq, optionalParameters_eq, Option.toList_map, Option.toList_map,
    toList_localAt?, toList_localAt?]

end Sequence

/-! ## Positions in machine words -/

/-- No position of an optional parameter lies past the last machine word. Otherwise a sum wraps
around and may find a local from the front once more. -/
def ParameterLayout.FitsWords (layout : ParameterLayout) : Prop :=
  layout.lead.getD 0 + (layout.defaults.getD []).length ≤ UInt64.size

instance (layout : ParameterLayout) : Decidable layout.FitsWords :=
  inferInstanceAs (Decidable (_ ≤ _))

namespace Sequence

/-- The optional parameters, with positions that are added up in machine words. -/
def wordOptionalParameters (s : Sequence) : List Parameter :=
  let first := UInt64.ofNat (s.parameters.lead.getD 0)
  (s.parameters.defaults.getD []).zipIdx.filterMap fun (default, place) =>
    s.locals[(first + UInt64.ofNat place).toNat]?.map fun name => .optional name default

theorem wordOptionalParameters_eq {s : Sequence} (h : s.parameters.FitsWords) :
    s.wordOptionalParameters = s.optionalParameters := by
  unfold wordOptionalParameters optionalParameters
  refine List.filterMap_congr fun ⟨default, place⟩ hmem => ?_
  have hplace : place < (s.parameters.defaults.getD []).length := by
    simpa using List.snd_lt_add_of_mem_zipIdx hmem
  have hposition : s.parameters.lead.getD 0 + place < UInt64.size :=
    Nat.lt_of_lt_of_le (Nat.add_lt_add_left hplace _) h
  dsimp only
  rw [← UInt64.ofNat_add, UInt64.toNat_ofNat_of_lt' hposition]

end Sequence

/-! ## Kinds of parameters -/

namespace Parameter

/-- The place of a kind of parameters in a declaration.  Keywords with and without a default are of
one kind. -/
def rank : Parameter → Nat
  | required _ => 0
  | optional _ _ => 1
  | rest _ => 2
  | keywordRequired _ | keywordOptional _ _ => 3
  | keywordRest _ => 4

/-- Required and optional parameters take their arguments by position. -/
def isPositional : Parameter → Bool
  | required _ | optional _ _ => true
  | _ => false

theorem isPositional_iff (parameter : Parameter) :
    parameter.isPositional = true ↔ parameter.rank < 2 := by
  cases parameter <;> simp [isPositional, rank]

theorem rank_ofKeyword (keyword : Keyword) : (ofKeyword keyword).rank = 3 := by
  cases keyword <;> rfl

theorem rank_of_mem_optionals {names : List String} {defaults : List Literal}
    {parameter : Parameter} (h : parameter ∈ List.zipWith optional names defaults) :
    parameter.rank = 1 := by
  rw [← List.map_uncurry_zip_eq_zipWith] at h
  obtain ⟨pair, -, rfl⟩ := List.mem_map.1 h
  rfl

theorem names_optionals (names : List String) (defaults : List Literal) :
    (List.zipWith optional names defaults).map name = names.take defaults.length := by
  induction names generalizing defaults with
  | nil => simp
  | cons first rest ih =>
    cases defaults with
    | nil => rfl
    | cons default defaults =>
      rw [List.zipWith_cons_cons, List.map_cons, ih, List.length_cons, List.take_succ_cons]
      rfl

/-- The kinds are in order, and none comes before the one of a given rank. -/
structure RankedFrom (first : Nat) (parameters : List Parameter) : Prop where
  ordered : parameters.Pairwise fun earlier later => earlier.rank ≤ later.rank
  bound : ∀ parameter ∈ parameters, first ≤ parameter.rank

theorem rankedFrom_nil (first : Nat) : RankedFrom first [] :=
  ⟨.nil, nofun⟩

/-- Parameters of one kind stand before those of later kinds. -/
theorem RankedFrom.prepend {first : Nat} {group parameters : List Parameter}
    (h : RankedFrom (first + 1) parameters)
    (hgroup : ∀ parameter ∈ group, parameter.rank = first) :
    RankedFrom first (group ++ parameters) where
  ordered := by
    refine List.pairwise_append.2 ⟨?_, h.ordered, fun earlier hearlier later hlater => ?_⟩
    · exact List.pairwise_of_forall_mem_list fun earlier hearlier later hlater =>
        Nat.le_of_eq ((hgroup earlier hearlier).trans (hgroup later hlater).symm)
    · have hbound := h.bound later hlater
      rw [hgroup earlier hearlier]
      omega
  bound parameter hparameter := by
    rcases List.mem_append.1 hparameter with hmem | hmem
    · exact Nat.le_of_eq (hgroup parameter hmem).symm
    · exact Nat.le_of_succ_le (h.bound parameter hmem)

end Parameter

namespace ParameterLayout

variable (layout : ParameterLayout) (locals : List String)

/-- A layout assigns positional parameters first, and others after them. -/
theorem exists_assign_eq_append : ∃ others, Parameter.RankedFrom 2 others ∧
    layout.assign locals =
      (locals.take (layout.lead.getD 0)).map .required ++
        (List.zipWith .optional (locals.drop (layout.lead.getD 0)) (layout.defaults.getD []) ++
          others) := by
  have hconstant {α : Type} (values : List α) (make : α → Parameter) {rank : Nat}
      (hmake : ∀ value, (make value).rank = rank) :
      ∀ parameter ∈ values.map make, parameter.rank = rank :=
    List.forall_mem_map.2 fun value _ => hmake value
  unfold assign
  simp only [List.append_assoc]
  refine ⟨_, .prepend (.prepend ?_ (hconstant _ _ Parameter.rank_ofKeyword))
    (hconstant _ _ fun _ => rfl), rfl⟩
  rw [← List.append_nil (List.map _ _)]
  exact (Parameter.rankedFrom_nil 5).prepend (hconstant _ _ fun _ => rfl)

theorem rankedFrom_assign : Parameter.RankedFrom 0 (layout.assign locals) := by
  obtain ⟨others, hothers, hassign⟩ := layout.exists_assign_eq_append locals
  rw [hassign]
  refine .prepend (.prepend hothers fun _ hmem => Parameter.rank_of_mem_optionals hmem) ?_
  exact List.forall_mem_map.2 fun _ _ => rfl

/-- The positional parameters take the first locals, one after another. -/
theorem names_positional_assign :
    ((layout.assign locals).filter Parameter.isPositional).map Parameter.name =
      locals.take (layout.lead.getD 0 + (layout.defaults.getD []).length) := by
  obtain ⟨others, hothers, hassign⟩ := layout.exists_assign_eq_append locals
  have hrequired : ((locals.take (layout.lead.getD 0)).map Parameter.required).filter
      Parameter.isPositional = (locals.take (layout.lead.getD 0)).map .required :=
    List.filter_eq_self.2 (List.forall_mem_map.2 fun _ _ => rfl)
  have hoptional : (List.zipWith Parameter.optional (locals.drop (layout.lead.getD 0))
      (layout.defaults.getD [])).filter Parameter.isPositional =
        List.zipWith .optional (locals.drop (layout.lead.getD 0)) (layout.defaults.getD []) := by
    refine List.filter_eq_self.2 fun parameter hmem => ?_
    rw [Parameter.isPositional_iff, Parameter.rank_of_mem_optionals hmem]
    decide
  have hothers : others.filter Parameter.isPositional = [] := by
    refine List.filter_eq_nil_iff.2 fun parameter hmem => ?_
    rw [Parameter.isPositional_iff]
    exact Nat.not_lt.2 (hothers.bound parameter hmem)
  rw [hassign, List.filter_append, List.filter_append, hrequired, hoptional, hothers,
    List.append_nil, List.map_append, Parameter.names_optionals, List.map_map, List.take_add]
  simp [Function.comp_def, Parameter.name]

end ParameterLayout

/-- The parameters of a body are those that its layout assigns to its locals.  The required and the
optional ones are the first locals, one for each required parameter and each default as far as there
are locals, and the kinds are in the order of a declaration. -/
theorem Sequence.signature_in_order (s : Sequence) :
    s.signature = s.parameters.assign s.locals ∧
      (s.signature.filter Parameter.isPositional).map Parameter.name =
        s.locals.take (min s.locals.length
          (s.parameters.lead.getD 0 + (s.parameters.defaults.getD []).length)) ∧
      s.signature.Pairwise fun earlier later => earlier.rank ≤ later.rank := by
  rw [s.signature_eq_assign]
  refine ⟨rfl, ?_, (s.parameters.rankedFrom_assign s.locals).ordered⟩
  rw [s.parameters.names_positional_assign, List.take_eq_take_min, Nat.min_comm]

end ClassIndex
