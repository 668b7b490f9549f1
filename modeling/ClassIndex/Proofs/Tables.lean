import ClassIndex.Model.Basic

/-!
# Tables by name

A method table finds its entries through an index of positions, and the catalogue its classes
through a map.  As long as the index is right (`MethodTable.Indexed`), entering a method changes the
entries as a plain list of pairs would be changed: in place if the name is there, and at the end if
it is not (`upsert`).  What is found under a name is then what these pairs have there
(`Indexed.get?_eq_some_iff`), and an insertion alters what is found under its own name only
(`Indexed.get?_insert`).
-/

namespace ClassIndex

/-- The pairs with a value under a name: in the place of the old value, or at the end. -/
def upsert {α : Type} (name : String) (value : α) : List (String × α) → List (String × α)
  | [] => [(name, value)]
  | (other, old) :: rest =>
    if other = name then (name, value) :: rest else (other, old) :: upsert name value rest

section Upsert

variable {α : Type} {name : String} {value : α} {pairs : List (String × α)}

theorem upsert_of_not_mem (h : name ∉ pairs.map Prod.fst) :
    upsert name value pairs = pairs ++ [(name, value)] := by
  induction pairs with
  | nil => rfl
  | cons pair rest ih =>
    rcases pair with ⟨other, old⟩
    rw [List.map_cons, List.mem_cons, not_or] at h
    rw [upsert, if_neg (Ne.symm h.1), ih h.2, List.cons_append]

theorem upsert_of_getElem? {position : Nat} (hnodup : (pairs.map Prod.fst).Nodup)
    (h : (pairs.map Prod.fst)[position]? = some name) :
    upsert name value pairs = pairs.set position (name, value) := by
  induction pairs generalizing position with
  | nil => cases h
  | cons pair rest ih =>
    rcases pair with ⟨other, old⟩
    rw [List.map_cons, List.nodup_cons] at hnodup
    cases position with
    | zero =>
      cases h
      rw [upsert, if_pos rfl, List.set_cons_zero]
    | succ position =>
      have hrest : (rest.map Prod.fst)[position]? = some name := h
      have hne : other ≠ name := by
        rintro rfl
        exact hnodup.1 (List.mem_of_getElem? hrest)
      rw [upsert, if_neg hne, ih hnodup.2 hrest, List.set_cons_succ]

/-- A new name comes last, and a known one keeps its place. -/
theorem map_fst_upsert :
    (upsert name value pairs).map Prod.fst =
      if name ∈ pairs.map Prod.fst then pairs.map Prod.fst else pairs.map Prod.fst ++ [name] := by
  induction pairs with
  | nil => rfl
  | cons pair rest ih =>
    rcases pair with ⟨other, old⟩
    rw [upsert]
    by_cases heq : other = name
    · subst heq
      rw [if_pos rfl, List.map_cons, List.map_cons, if_pos List.mem_cons_self]
    · rw [if_neg heq, List.map_cons, ih, List.map_cons]
      by_cases hrest : name ∈ rest.map Prod.fst
      · rw [if_pos hrest, if_pos (List.mem_cons_of_mem _ hrest)]
      · rw [if_neg hrest, if_neg (List.not_mem_cons_of_ne_of_not_mem (Ne.symm heq) hrest),
          List.cons_append]

/-- Under a name is what was put there last; under all other names is what was there before. -/
theorem mem_upsert_iff {other : String} {found : α} (hnodup : (pairs.map Prod.fst).Nodup) :
    (other, found) ∈ upsert name value pairs ↔
      if other = name then value = found else (other, found) ∈ pairs := by
  induction pairs with
  | nil =>
    rw [upsert, List.mem_singleton, Prod.mk.injEq]
    split
    · rename_i heq
      exact ⟨fun h => h.2.symm, fun h => ⟨heq, h.symm⟩⟩
    · rename_i hne
      exact ⟨fun h => absurd h.1 hne, fun h => absurd h List.not_mem_nil⟩
  | cons pair rest ih =>
    rcases pair with ⟨first, old⟩
    rw [List.map_cons, List.nodup_cons] at hnodup
    rw [upsert]
    -- If the first pair has the name, it is replaced, and no later pair has that name.
    by_cases hfirst : first = name
    · subst hfirst
      rw [if_pos rfl, List.mem_cons, List.mem_cons, Prod.mk.injEq, Prod.mk.injEq]
      split
      · rename_i heq
        subst heq
        have hrest : (other, found) ∉ rest := fun h => hnodup.1 (List.mem_map.2 ⟨_, h, rfl⟩)
        simp only [true_and, hrest, or_false, eq_comm]
      · rename_i hne
        simp only [hne, false_and, false_or]
    · rw [if_neg hfirst, List.mem_cons, List.mem_cons, ih hnodup.2]
      split
      · rename_i heq
        subst heq
        simp only [Prod.mk.injEq, Ne.symm hfirst, false_and, false_or]
      · rfl

end Upsert

theorem nodup_append_singleton {α : Type} {values : List α} {value : α} (hnodup : values.Nodup)
    (hvalue : value ∉ values) : (values ++ [value]).Nodup := by
  refine List.nodup_append.2 ⟨hnodup, List.pairwise_singleton _ _, ?_⟩
  rintro other hother last hlast rfl
  exact hvalue (List.mem_singleton.1 hlast ▸ hother)

theorem getElem?_insert_key {κ α : Type} [Ord κ] [Std.TransOrd κ] [Std.LawfulEqOrd κ]
    [DecidableEq κ] (map : Std.TreeMap κ α) (key other : κ) (value : α) :
    (map.insert key value)[other]? = if other = key then some value else map[other]? := by
  rw [Std.TreeMap.getElem?_insert]
  by_cases h : other = key
  · rw [if_pos h, if_pos (Std.compare_eq_iff_eq.2 h.symm)]
  · rw [if_neg h, if_neg fun heq => h (Std.compare_eq_iff_eq.1 heq).symm]

namespace MethodTable

/-- The index of a table gives the place of each name, and no name stands twice. -/
structure Indexed (table : MethodTable) : Prop where
  nodup : table.names.Nodup
  positions : ∀ (name : String) (position : Nat),
    table.positions[name]? = some position ↔ table.names[position]? = some name

theorem indexed_empty : ({} : MethodTable).Indexed where
  nodup := List.nodup_nil
  positions name position := by
    show (∅ : Std.TreeMap String Nat)[name]? = some position ↔ ([] : List String)[position]? = _
    rw [Std.TreeMap.getElem?_emptyc, List.getElem?_nil]
    exact ⟨nofun, nofun⟩

variable {table : MethodTable} {name : String} {method : MethodId}

theorem Indexed.positions_eq_none_iff (h : table.Indexed) :
    table.positions[name]? = none ↔ name ∉ table.names := by
  rw [Option.eq_none_iff_forall_ne_some, List.mem_iff_getElem?, not_exists]
  exact forall_congr' fun position => not_congr (h.positions name position)

/-- Entering a method changes the entries like a list of pairs. -/
theorem Indexed.toList_insert (h : table.Indexed) :
    (table.insert name method).entries.toList = upsert name method table.entries.toList := by
  unfold MethodTable.insert
  split
  · rename_i position hposition
    rw [upsert_of_getElem? h.nodup ((h.positions name position).1 hposition)]
    exact Array.toList_setIfInBounds ..
  · rename_i hnone
    rw [upsert_of_not_mem (h.positions_eq_none_iff.1 hnone)]
    exact Array.toList_push ..

theorem Indexed.names_insert (h : table.Indexed) (name : String) (method : MethodId) :
    (table.insert name method).names =
      if name ∈ table.names then table.names else table.names ++ [name] := by
  rw [names, h.toList_insert]
  exact map_fst_upsert

theorem getElem?_concat_name {names : List String} {other : String} {position : Nat}
    (hname : name ∉ names) :
    (names ++ [name])[position]? = some other ↔
      if other = name then position = names.length else names[position]? = some other := by
  by_cases heq : other = name
  · rw [if_pos heq, heq]
    constructor
    · intro h
      rcases Nat.lt_or_ge position names.length with hlt | hge
      · rw [List.getElem?_append_left hlt] at h
        exact absurd (List.mem_of_getElem? h) hname
      · rw [List.getElem?_append_right hge, List.getElem?_singleton] at h
        split at h
        · omega
        · cases h
    · rintro rfl
      rw [List.getElem?_concat_length]
  · rw [if_neg heq]
    rcases Nat.lt_or_ge position names.length with hlt | hge
    · rw [List.getElem?_append_left hlt]
    · rw [List.getElem?_append_right hge, List.getElem?_singleton, List.getElem?_eq_none hge]
      split
      · rw [Option.some.injEq]
        exact ⟨fun h => absurd h.symm heq, nofun⟩
      · rfl

/-- The index stays right: a known name keeps its place, and a new one gets the last. -/
theorem Indexed.insert (h : table.Indexed) : (table.insert name method).Indexed := by
  rcases hposition : table.positions[name]? with _ | position
  · have hname := h.positions_eq_none_iff.1 hposition
    have hinsert : table.insert name method =
        ⟨table.entries.push (name, method), table.positions.insert name table.entries.size⟩ := by
      rw [MethodTable.insert, hposition]
    have hnames : (table.insert name method).names = table.names ++ [name] := by
      rw [h.names_insert, if_neg hname]
    constructor
    · rw [hnames]
      exact nodup_append_singleton h.nodup hname
    · intro other place
      have hsize : table.entries.size = table.names.length := by
        rw [names, List.length_map, Array.length_toList]
      rw [hnames, getElem?_concat_name hname, hinsert]
      show (table.positions.insert name table.entries.size)[other]? = some place ↔ _
      rw [getElem?_insert_key]
      split
      · rw [Option.some.injEq, hsize, eq_comm]
      · exact h.positions other place
  · have hplace := (h.positions name position).1 hposition
    have hinsert : table.insert name method =
        { table with entries := table.entries.setIfInBounds position (name, method) } := by
      rw [MethodTable.insert, hposition]
    have hnames : (table.insert name method).names = table.names := by
      rw [h.names_insert, if_pos (List.mem_of_getElem? hplace)]
    constructor
    · rw [hnames]
      exact h.nodup
    · intro other place
      rw [hnames, hinsert]
      exact h.positions other place

/-- The index gives the place of the entry under a name. -/
theorem Indexed.position_iff (h : table.Indexed) {position : Nat} :
    table.positions[name]? = some position ↔
      ∃ method, table.entries[position]? = some (name, method) := by
  rw [h.positions, names, List.getElem?_map, Array.getElem?_toList, Option.map_eq_some_iff]
  constructor
  · rintro ⟨⟨_, method⟩, hentry, rfl⟩
    exact ⟨method, hentry⟩
  · rintro ⟨method, hentry⟩
    exact ⟨_, hentry, rfl⟩

theorem Indexed.get?_eq_some_iff (h : table.Indexed) :
    table.get? name = some method ↔ (name, method) ∈ table.entries.toList := by
  rw [Array.mem_toList_iff]
  constructor
  · intro hget
    obtain ⟨position, hposition, hmethod⟩ := Option.bind_eq_some_iff.1 hget
    obtain ⟨found, hentry⟩ := h.position_iff.1 hposition
    rw [hentry, Option.map_some, Option.some.injEq] at hmethod
    subst hmethod
    exact Array.mem_of_getElem? hentry
  · intro hmem
    obtain ⟨position, hentry⟩ := Array.mem_iff_getElem?.1 hmem
    rw [get?, h.position_iff.2 ⟨method, hentry⟩, Option.bind_some, hentry]
    rfl

theorem Indexed.isSome_get?_iff (h : table.Indexed) (name : String) :
    (table.get? name).isSome ↔ name ∈ table.names := by
  rw [Option.isSome_iff_exists, names, List.mem_map]
  constructor
  · rintro ⟨method, hget⟩
    exact ⟨(name, method), h.get?_eq_some_iff.1 hget, rfl⟩
  · rintro ⟨⟨_, method⟩, hentry, rfl⟩
    exact ⟨method, h.get?_eq_some_iff.2 hentry⟩

theorem Indexed.get?_insert (h : table.Indexed) (other : String) :
    (table.insert name method).get? other =
      if other = name then some method else table.get? other := by
  ext found
  rw [h.insert.get?_eq_some_iff, h.toList_insert, mem_upsert_iff h.nodup]
  split
  · rw [Option.some.injEq]
  · rw [h.get?_eq_some_iff]

end MethodTable

namespace Catalogue

theorem find?_register (catalogue : Catalogue) (name other : String) (id : ClassId) :
    (catalogue.register name id).find? other =
      if other = name then some id else catalogue.find? other :=
  getElem?_insert_key catalogue.byName name other id

end Catalogue

end ClassIndex
