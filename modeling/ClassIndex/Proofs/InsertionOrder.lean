import ClassIndex.Proofs.Entries
import Mathlib.Data.Finset.Card
import Mathlib.Data.List.Forall2

/-!
# Method tables in order of insertion

`Insertions` are methods that are entered into a table one after another.  A table that starts
empty cannot be told from them (`MethodTable.Follows`): it lists each name once, at the place of
its first insertion, with the method of its last one, and that method is what a look-up finds.

The table reads and replaces its entries at positions that its index gives.  `checkedGet` and
`checkedInsert` make each such access fail where there is no entry (`OutOfBounds`).  With a right
index they do the same as the plain operations, so no access ever fails.  Both together are
`ofInsertions_follows`.
-/

namespace ClassIndex

/-! ## Insertions -/

/-- Methods that are entered into a table, in order, with the names that they are entered under. -/
abbrev Insertions : Type :=
  List (String × MethodId)

namespace Insertions

/-- The names, each once, in order of first insertion. -/
def names (insertions : Insertions) : List String :=
  (insertions.map Prod.fst).eraseDups

/-- A method is the last one that was entered under a name. -/
def Last (insertions : Insertions) (name : String) (method : MethodId) : Prop :=
  ∃ earlier later, insertions = earlier ++ (name, method) :: later ∧ name ∉ later.map Prod.fst

/-- Methods that are entered under names of their own. -/
def ofMethods (nameOf : MethodId → String) (methods : List MethodId) : Insertions :=
  methods.map fun method => (nameOf method, method)

variable {insertions : Insertions} {name other : String} {method last : MethodId}

theorem mem_names_iff : name ∈ insertions.names ↔ name ∈ insertions.map Prod.fst :=
  List.mem_eraseDups

/-- One more insertion adds its name, unless it is known. -/
theorem names_concat :
    names (insertions ++ [(name, method)]) =
      if name ∈ insertions.names then insertions.names else insertions.names ++ [name] := by
  have hremove : [name].removeAll (insertions.map Prod.fst) =
      if name ∈ insertions.names then [] else [name] := by
    by_cases hname : name ∈ insertions.names <;> simp [List.removeAll, ← mem_names_iff, hname]
  rw [names, List.map_append, List.eraseDups_append, List.map_singleton, hremove]
  split
  · exact List.append_nil _
  · rfl

/-- One more insertion is the last one of its name, and of no other. -/
theorem last_concat_iff :
    Last (insertions ++ [(name, last)]) other method ↔
      if other = name then last = method else insertions.Last other method := by
  constructor
  · rintro ⟨earlier, later, hsplit, hlater⟩
    rcases List.eq_nil_or_concat later with rfl | ⟨rest, final, rfl⟩
    · obtain ⟨-, hpair⟩ := List.append_inj' hsplit rfl
      cases hpair
      rw [if_pos rfl]
    · rw [List.concat_eq_append] at hsplit hlater
      rw [← List.cons_append, ← List.append_assoc] at hsplit
      obtain ⟨hrest, hpair⟩ := List.append_inj' hsplit rfl
      cases hpair
      rw [List.map_append, List.mem_append, not_or] at hlater
      rw [if_neg fun heq => hlater.2 (List.mem_singleton.2 heq)]
      exact ⟨earlier, rest, hrest, hlater.1⟩
  · split
    · rintro rfl
      rename_i heq
      exact ⟨insertions, [], by rw [heq], List.not_mem_nil⟩
    · rintro ⟨earlier, later, rfl, hlater⟩
      rename_i hne
      refine ⟨earlier, later ++ [(name, last)], by rw [List.append_assoc, List.cons_append], ?_⟩
      rw [List.map_append, List.mem_append, not_or]
      exact ⟨hlater, fun heq => hne (List.mem_singleton.1 heq)⟩

theorem Last.mem (h : insertions.Last name method) : (name, method) ∈ insertions := by
  obtain ⟨earlier, later, rfl, -⟩ := h
  exact List.mem_append_right _ List.mem_cons_self

end Insertions

namespace MethodTable

variable {table : MethodTable}

/-! ## Access in bounds -/

/-- An access at a position where a table has no entry. -/
structure OutOfBounds where
  position : Nat
  size : Nat

/-- The method under a name. It is a fault if its position is out of bounds. -/
def checkedGet (table : MethodTable) (name : String) : Except OutOfBounds (Option MethodId) :=
  match table.positions[name]? with
  | some position =>
    if h : position < table.entries.size then .ok (some table.entries[position].2)
    else .error ⟨position, table.entries.size⟩
  | none => .ok none

/-- Enters a method under a name. It is a fault if the position of a known name is out of bounds. -/
def checkedInsert (table : MethodTable) (name : String) (method : MethodId) :
    Except OutOfBounds MethodTable :=
  match table.positions[name]? with
  | some position =>
    if h : position < table.entries.size then
      .ok { table with entries := table.entries.set position (name, method) }
    else .error ⟨position, table.entries.size⟩
  | none =>
    .ok {
      entries := table.entries.push (name, method)
      positions := table.positions.insert name table.entries.size }

theorem Indexed.getElem_position (h : table.Indexed) {name : String} {position : Nat}
    (hposition : table.positions[name]? = some position) :
    ∃ hlt : position < table.entries.size, table.entries[position].1 = name := by
  obtain ⟨method, hentry⟩ := h.position_iff.1 hposition
  obtain ⟨hlt, hget⟩ := Array.getElem?_eq_some_iff.1 hentry
  exact ⟨hlt, congrArg Prod.fst hget⟩

theorem Indexed.checkedGet_eq (h : table.Indexed) (name : String) :
    table.checkedGet name = .ok (table.get? name) := by
  rcases hposition : table.positions[name]? with _ | position
  · rw [checkedGet, get?, hposition]
    rfl
  · obtain ⟨hlt, -⟩ := h.getElem_position hposition
    rw [checkedGet, get?, hposition]
    dsimp only [Option.bind_some]
    rw [dif_pos hlt, Array.getElem?_eq_getElem hlt]
    rfl

theorem Indexed.checkedInsert_eq (h : table.Indexed) (name : String) (method : MethodId) :
    table.checkedInsert name method = .ok (table.insert name method) := by
  rcases hposition : table.positions[name]? with _ | position
  · rw [checkedInsert, MethodTable.insert, hposition]
  · obtain ⟨hlt, -⟩ := h.getElem_position hposition
    rw [checkedInsert, MethodTable.insert, hposition]
    dsimp only
    rw [dif_pos hlt, Array.setIfInBounds_def, dif_pos hlt]

/-! ## Any number of insertions -/

/-- The table after some insertions. -/
def ofInsertions (insertions : Insertions) : MethodTable :=
  insertions.foldl (fun table (name, method) => table.insert name method) {}

/-- The table after some insertions, of which each may fail. -/
def checkedOfInsertions (insertions : Insertions) : Except OutOfBounds MethodTable :=
  insertions.foldlM (fun table (name, method) => table.checkedInsert name method) {}

/-- From outside, the table cannot be told from the insertions. -/
structure Follows (table : MethodTable) (insertions : Insertions) : Prop where
  names : table.names = insertions.names
  /-- The methods stand in the order of the names, and each is the last one of its name. -/
  methods : List.Forall₂ insertions.Last insertions.names table.methods
  get : ∀ name method, table.get? name = some method ↔ insertions.Last name method
  get_none : ∀ name, table.get? name = none ↔ name ∉ insertions.map Prod.fst
  size : table.size = (insertions.map Prod.fst).toFinset.card
  isEmpty : table.isEmpty = true ↔ insertions = []
  /-- Each position of the index is the one of an entry of that name. -/
  inBounds : ∀ name position, table.positions[name]? = some position →
    ∃ hlt : position < table.entries.size, table.entries[position].1 = name
  checkedGet : ∀ name, table.checkedGet name = .ok (table.get? name)

/-- The index is right, and names and look-ups are as the insertions say. -/
structure Represents (table : MethodTable) (insertions : Insertions) : Prop where
  indexed : table.Indexed
  names : table.names = insertions.names
  get : ∀ name method, table.get? name = some method ↔ insertions.Last name method

variable {insertions : Insertions}

theorem represents_empty : ({} : MethodTable).Represents [] where
  indexed := indexed_empty
  names := rfl
  get name method := by
    rw [indexed_empty.get?_eq_some_iff]
    refine iff_of_false List.not_mem_nil ?_
    exact fun h => List.not_mem_nil h.mem

namespace Represents

theorem insert (h : table.Represents insertions) (name : String) (method : MethodId) :
    (table.insert name method).Represents (insertions ++ [(name, method)]) where
  indexed := h.indexed.insert
  names := by rw [h.indexed.names_insert, Insertions.names_concat, h.names]
  get other found := by
    rw [h.indexed.get?_insert, Insertions.last_concat_iff]
    split
    · rw [Option.some.injEq]
    · exact h.get other found

theorem methods (h : table.Represents insertions) :
    List.Forall₂ insertions.Last insertions.names table.methods := by
  rw [← h.names, MethodTable.names, MethodTable.methods, List.forall₂_map_left_iff,
    List.forall₂_map_right_iff, List.forall₂_same]
  intro entry hentry
  exact (h.get _ _).1 (h.indexed.get?_eq_some_iff.2 hentry)

theorem size (h : table.Represents insertions) :
    table.size = (insertions.map Prod.fst).toFinset.card := by
  have hnames : (insertions.map Prod.fst).toFinset = table.names.toFinset := by
    ext name
    rw [List.mem_toFinset, List.mem_toFinset, h.names, Insertions.mem_names_iff]
  rw [hnames, List.toFinset_card_of_nodup h.indexed.nodup, MethodTable.names, List.length_map,
    Array.length_toList, MethodTable.size]

theorem follows (h : table.Represents insertions) : table.Follows insertions where
  names := h.names
  methods := h.methods
  get := h.get
  get_none name := by
    rw [← Option.not_isSome_iff_eq_none, h.indexed.isSome_get?_iff, h.names,
      Insertions.mem_names_iff]
  size := h.size
  isEmpty := by
    rw [isEmpty, Array.isEmpty_iff_size_eq_zero, ← MethodTable.size, h.size, Finset.card_eq_zero,
      List.toFinset_eq_empty_iff, List.map_eq_nil_iff]
  inBounds _ _ := h.indexed.getElem_position
  checkedGet := h.indexed.checkedGet_eq

end Represents

theorem represents_ofInsertions (insertions : Insertions) :
    (ofInsertions insertions).Represents insertions := by
  -- The induction adds at the end, where the next insertion is made.
  induction insertions using List.reverseRecOn with
  | nil => exact represents_empty
  | append_singleton insertions insertion ih =>
    rw [ofInsertions, List.foldl_append]
    exact ih.insert insertion.1 insertion.2

/-- No insertion fails, whatever was entered before. -/
theorem checkedOfInsertions_eq (insertions : Insertions) :
    checkedOfInsertions insertions = .ok (ofInsertions insertions) := by
  induction insertions using List.reverseRecOn with
  | nil => rfl
  | append_singleton insertions insertion ih =>
    rcases insertion with ⟨name, method⟩
    have hindexed := (represents_ofInsertions insertions).indexed
    calc checkedOfInsertions (insertions ++ [(name, method)])
        = checkedOfInsertions insertions >>= fun table => table.checkedInsert name method := by
          rw [checkedOfInsertions, List.foldlM_append]
          simp only [List.foldlM_cons, List.foldlM_nil, bind_pure]
          rfl
      _ = (ofInsertions insertions).checkedInsert name method := by rw [ih]; rfl
      _ = .ok (ofInsertions (insertions ++ [(name, method)])) := by
          rw [hindexed.checkedInsert_eq, ofInsertions, ofInsertions, List.foldl_append]
          rfl

/-- Methods that are entered under their own names are listed under them. -/
theorem Represents.map_methods {nameOf : MethodId → String} {methods : List MethodId}
    (h : table.Represents (.ofMethods nameOf methods)) :
    table.methods.map nameOf = (methods.map nameOf).eraseDups := by
  have hnames : table.methods.map nameOf = table.names := by
    rw [MethodTable.methods, MethodTable.names, List.map_map]
    refine List.map_congr_left fun entry hentry => ?_
    have hlast := (h.get _ _).1 (h.indexed.get?_eq_some_iff.2 hentry)
    obtain ⟨method, -, hmethod⟩ := List.mem_map.1 hlast.mem
    obtain ⟨hname, rfl⟩ := Prod.mk.inj hmethod
    exact hname
  rw [hnames, h.names, Insertions.names, Insertions.ofMethods, List.map_map]
  rfl

/-- A table that starts empty lists each name once, at the place of its first insertion, and finds
and lists the method of its last one; no access is out of bounds while it is filled or read.
Methods that are entered under their own names are listed one for each name. -/
theorem ofInsertions_follows :
    (∀ insertions : Insertions, (ofInsertions insertions).Follows insertions ∧
      checkedOfInsertions insertions = .ok (ofInsertions insertions)) ∧
    ∀ (nameOf : MethodId → String) (methods : List MethodId),
      (ofInsertions (.ofMethods nameOf methods)).methods.map nameOf =
        (methods.map nameOf).eraseDups :=
  ⟨fun insertions =>
      ⟨(represents_ofInsertions insertions).follows, checkedOfInsertions_eq insertions⟩,
    fun _ _ => (represents_ofInsertions _).map_methods⟩

example :
    let table := (({} : MethodTable).insert "size" ⟨0⟩).insert "push" ⟨1⟩
    (table.insert "size" ⟨2⟩).methods = [⟨2⟩, ⟨1⟩] := by
  decide

end MethodTable

end ClassIndex
