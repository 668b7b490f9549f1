import ClassIndex.Proofs.Runs
import ClassIndex.Proofs.Tables

/-!
# Processors as a plain list

Processors are kept in a map by instruction, and a second map finds the one of a qualifier.  A
`Roster` is the plain view of them: the accepted registrations in order, searched from the start.
`Processors.Represents` relates the maps to it: the entries of each instruction, the place of each
qualifier, and that no instruction has an entry without processors.  `Represents.request` is the step
for one more registration: an accepted one comes last in the roster, and a refused one leaves the
roster alone, although its instruction has an index afterwards.

`Processors.Follows` says what can be told from outside: which registrations are refused and for
which qualifier, what is found, what a declaration comes to, and how many processors there are.
After any calls, some of them refused, the processors follow the roster of those that were accepted
(`ofCalls_follows_roster`).
-/

namespace ClassIndex

/-- A registration as it is asked for. -/
structure RegistrationCall (σ : Type) extends Registration σ where
  opcode : Opcode

/-- Accepted registrations, in order. -/
abbrev Roster (σ : Type) : Type :=
  List (RegistrationCall σ)

variable {σ : Type}

/-- A registration out of a list of them. -/
def RegistrationCall.ofEntry (entry : Opcode × List String × Processor σ) : RegistrationCall σ :=
  ⟨⟨entry.2.1, entry.2.2⟩, entry.1⟩

theorem RegistrationCall.mem_map_ofEntry_iff {call : RegistrationCall σ}
    {entries : List (Opcode × List String × Processor σ)} :
    call ∈ entries.map .ofEntry ↔ (call.opcode, call.qualifiers, call.processor) ∈ entries := by
  constructor
  · intro h
    obtain ⟨entry, hentry, rfl⟩ := List.mem_map.1 h
    exact hentry
  · exact fun h => List.mem_map.2 ⟨_, h, rfl⟩

namespace Roster

/-- A qualifier is taken if it stands earlier in its own list, or if a registration of the same
instruction has it. -/
def Taken (roster : Roster σ) (opcode : Opcode) (earlier : List String) (qualifier : String) :
    Prop :=
  qualifier ∈ earlier ∨ ∃ call ∈ roster, call.opcode = opcode ∧ qualifier ∈ call.qualifiers

/-- The first of some qualifiers that is taken where it stands. -/
def FirstTaken (roster : Roster σ) (opcode : Opcode) (qualifiers : List String)
    (qualifier : String) : Prop :=
  ∃ earlier later, qualifiers = earlier ++ qualifier :: later ∧
    roster.Taken opcode earlier qualifier ∧
    ∀ before other after, earlier = before ++ other :: after → ¬ roster.Taken opcode before other

/-- No qualifier of a registration stands twice or belongs to its instruction already. -/
def Admits (roster : Roster σ) (call : RegistrationCall σ) : Prop :=
  call.qualifiers.Nodup ∧ ∀ other ∈ roster, other.opcode = call.opcode →
    ∀ qualifier ∈ call.qualifiers, qualifier ∉ other.qualifiers

instance (roster : Roster σ) (call : RegistrationCall σ) : Decidable (roster.Admits call) :=
  inferInstanceAs (Decidable (_ ∧ _))

/-- The roster after one more registration was asked for. -/
def accept (roster : Roster σ) (call : RegistrationCall σ) : Roster σ :=
  if roster.Admits call then roster ++ [call] else roster

/-- The accepted ones of some calls. -/
def ofCalls (calls : List (RegistrationCall σ)) : Roster σ :=
  calls.foldl accept []

/-- The first registration of an instruction, or the first one of it with a qualifier. -/
def search? (roster : Roster σ) (opcode : Opcode) : Option String → Option (RegistrationCall σ)
  | none => roster.find? fun call => call.opcode = opcode
  | some qualifier =>
    roster.find? fun call => call.opcode = opcode ∧ qualifier ∈ call.qualifiers

/-- No two registrations of one instruction share a qualifier. -/
def Separate (roster : Roster σ) : Prop :=
  roster.Pairwise fun first second => first.opcode = second.opcode →
    ∀ qualifier ∈ first.qualifiers, qualifier ∉ second.qualifiers

/-- The registrations of one instruction. -/
def entriesOf (roster : Roster σ) (opcode : Opcode) : List (Registration σ) :=
  (roster.filter fun call => call.opcode = opcode).map (·.toRegistration)

end Roster

namespace Processors

/-- A registration that is asked for: what comes of it, and the processors afterwards. -/
def request (processors : Processors σ) (call : RegistrationCall σ) :
    Except RegistrationError Unit × Processors σ :=
  processors.register call.opcode call.qualifiers call.processor

/-- The processors after some calls. -/
def ofCalls (calls : List (RegistrationCall σ)) : Processors σ :=
  calls.foldl (fun processors call => (processors.request call).2) empty

/-- From outside, the processors cannot be told from the roster. -/
structure Follows (processors : Processors σ) (roster : Roster σ) : Prop where
  /-- A call is refused for the first of its qualifiers that is taken, if there is one. -/
  refuses : ∀ (call : RegistrationCall σ) (error : RegistrationError),
    (processors.request call).1 = .error error ↔
      ∃ qualifier, roster.FirstTaken call.opcode call.qualifiers qualifier ∧
        error = .overlappingQualifier call.opcode qualifier
  accepts : ∀ call : RegistrationCall σ,
    (processors.request call).1 = .ok () ↔ roster.Admits call
  find : ∀ opcode qualifier, processors.find? opcode qualifier =
    (roster.search? opcode qualifier).map (·.toRegistration)
  /-- What is found for a qualifier has that qualifier. -/
  belongs : ∀ opcode qualifier entry,
    processors.find? opcode (some qualifier) = some entry → qualifier ∈ entry.qualifiers
  /-- At most one registration of an instruction has a qualifier. -/
  separate : roster.Separate
  isRegistered : ∀ opcode qualifier, processors.isRegistered opcode qualifier =
    (roster.search? opcode qualifier).isSome
  dispatch : ∀ opcode qualifier values (host : Host σ),
    (processors.dispatch opcode qualifier values).run.run host =
      match roster.search? opcode qualifier with
      | some call => (call.processor ⟨opcode.name, values⟩).run.run host
      | none => (.ok .nil, host.reporting (.noProcessor opcode qualifier))
  size : processors.size = roster.length
  isEmpty : processors.isEmpty = true ↔ processors.size = 0

/-- Nothing that can be asked of the processors tells them apart. -/
structure Alike (first second : Processors σ) : Prop where
  request : ∀ call, (first.request call).1 = (second.request call).1
  isRegistered : ∀ opcode qualifier,
    first.isRegistered opcode qualifier = second.isRegistered opcode qualifier
  dispatch : ∀ opcode qualifier values,
    first.dispatch opcode qualifier values = second.dispatch opcode qualifier values
  size : first.size = second.size
  isEmpty : first.isEmpty = second.isEmpty

end Processors

/-! ## The index of one instruction -/

namespace QualifierIndex

/-- The index gives the place of the entry with a qualifier. -/
def Locates (index : QualifierIndex) (entries : List (Registration σ)) : Prop :=
  ∀ (qualifier : String) (position : Nat), index[qualifier]? = some position ↔
    ∃ entry, entries[position]? = some entry ∧ qualifier ∈ entry.qualifiers

theorem locates_empty : Locates ({} : QualifierIndex) ([] : List (Registration σ)) := by
  intro qualifier position
  show (∅ : Std.TreeMap String Nat)[qualifier]? = some position ↔ _
  simp

theorem getElem?_enter (index : QualifierIndex) (qualifiers : List String) (position : Nat)
    (qualifier : String) :
    (index.enter qualifiers position)[qualifier]? =
      if qualifier ∈ qualifiers then some position else index[qualifier]? := by
  unfold enter
  induction qualifiers generalizing index with
  | nil => simp
  | cons first rest ih =>
    rw [List.foldl_cons, ih, getElem?_insert_key]
    by_cases hfirst : qualifier = first <;> simp [hfirst]

variable {index : QualifierIndex} {entries : List (Registration σ)}

theorem Locates.contains_iff (h : index.Locates entries) (qualifier : String) :
    index.contains qualifier = true ↔ ∃ entry ∈ entries, qualifier ∈ entry.qualifiers := by
  rw [Std.TreeMap.contains_eq_isSome_getElem?, Option.isSome_iff_exists]
  constructor
  · rintro ⟨position, hposition⟩
    obtain ⟨entry, hentry, hqualifier⟩ := (h qualifier position).1 hposition
    exact ⟨entry, List.mem_of_getElem? hentry, hqualifier⟩
  · rintro ⟨entry, hentry, hqualifier⟩
    obtain ⟨position, hposition⟩ := List.mem_iff_getElem?.1 hentry
    exact ⟨position, (h qualifier position).2 ⟨entry, hposition, hqualifier⟩⟩

/-- The index finds what a search from the start finds. -/
theorem Locates.find_eq (h : index.Locates entries) (qualifier : String) :
    (index[qualifier]?.bind fun position => entries[position]?) =
      entries.find? fun entry => qualifier ∈ entry.qualifiers := by
  rcases hfound : entries.find? fun entry => qualifier ∈ entry.qualifiers with _ | entry
  · have hnone : index[qualifier]? = none := by
      rw [Option.eq_none_iff_forall_ne_some]
      intro position hposition
      obtain ⟨entry, hentry, hqualifier⟩ := (h qualifier position).1 hposition
      simpa [hqualifier] using List.find?_eq_none.1 hfound entry (List.mem_of_getElem? hentry)
    rw [hnone, Option.bind_none, hfound]
  · obtain ⟨position, hposition⟩ := List.mem_iff_getElem?.1 (List.mem_of_find?_eq_some hfound)
    have hqualifier : qualifier ∈ entry.qualifiers := by simpa using List.find?_some hfound
    rw [(h qualifier position).2 ⟨entry, hposition, hqualifier⟩, Option.bind_some, hposition,
      hfound]

/-- An entry with free qualifiers comes last, and its qualifiers get the position of the end. -/
theorem Locates.enter (h : index.Locates entries) {entry : Registration σ}
    (hfree : ∀ other ∈ entries, ∀ qualifier ∈ entry.qualifiers, qualifier ∉ other.qualifiers) :
    (index.enter entry.qualifiers entries.length).Locates (entries ++ [entry]) := by
  intro qualifier position
  rw [getElem?_enter, List.getElem?_append]
  -- The index changes for the qualifiers of the new entry only, which no old entry has.
  split
  · rename_i hqualifier
    by_cases hold : position < entries.length
    · simp only [if_pos hold, Option.some.injEq]
      refine iff_of_false (by omega) ?_
      rintro ⟨other, hother, hshared⟩
      exact hfree other (List.mem_of_getElem? hother) qualifier hqualifier hshared
    · simp only [if_neg hold, Option.some.injEq, List.getElem?_singleton]
      by_cases hlast : position = entries.length
      · simp [hlast, hqualifier]
      · simp only [if_neg (show ¬ position - entries.length = 0 by omega), reduceCtorEq,
          false_and, exists_false, iff_false]
        omega
  · rename_i hqualifier
    rw [h qualifier position]
    by_cases hold : position < entries.length
    · rw [if_pos hold]
    · rw [if_neg hold, List.getElem?_eq_none (by omega), List.getElem?_singleton]
      by_cases hlast : position - entries.length = 0
      · simp [hlast, hqualifier]
      · simp [hlast]

end QualifierIndex

/-! ## Processors and their roster -/

namespace Roster

variable {roster : Roster σ} {call : RegistrationCall σ} {opcode : Opcode}

theorem mem_entriesOf_iff {entry : Registration σ} :
    entry ∈ roster.entriesOf opcode ↔
      ∃ call ∈ roster, call.opcode = opcode ∧ call.toRegistration = entry := by
  simp [entriesOf, and_assoc]

theorem entriesOf_append_self :
    entriesOf (roster ++ [call]) call.opcode =
      roster.entriesOf call.opcode ++ [call.toRegistration] := by
  simp [entriesOf]

theorem entriesOf_append_of_ne (h : opcode ≠ call.opcode) :
    entriesOf (roster ++ [call]) opcode = roster.entriesOf opcode := by
  simp [entriesOf, Ne.symm h]

theorem Admits.free_of_mem_entriesOf (h : roster.Admits call) {entry : Registration σ}
    (hentry : entry ∈ roster.entriesOf call.opcode) :
    ∀ qualifier ∈ call.qualifiers, qualifier ∉ entry.qualifiers := by
  obtain ⟨other, hother, hopcode, rfl⟩ := mem_entriesOf_iff.1 hentry
  exact h.2 other hother hopcode

theorem taken_iff {earlier : List String} {qualifier : String} :
    roster.Taken opcode earlier qualifier ↔
      qualifier ∈ earlier ∨ ∃ entry ∈ roster.entriesOf opcode, qualifier ∈ entry.qualifiers := by
  refine or_congr Iff.rfl ⟨?_, ?_⟩
  · rintro ⟨call, hcall, hopcode, hqualifier⟩
    exact ⟨call.toRegistration, mem_entriesOf_iff.2 ⟨call, hcall, hopcode, rfl⟩, hqualifier⟩
  · rintro ⟨entry, hentry, hqualifier⟩
    obtain ⟨call, hcall, hopcode, rfl⟩ := mem_entriesOf_iff.1 hentry
    exact ⟨call, hcall, hopcode, hqualifier⟩

theorem Taken.congr {earlier earlier' : List String} {qualifier : String}
    (h : ∀ other, other ∈ earlier ↔ other ∈ earlier') :
    roster.Taken opcode earlier qualifier ↔ roster.Taken opcode earlier' qualifier :=
  or_congr (h qualifier) Iff.rfl

/-- The first of some qualifiers that is taken where it stands, after some others. -/
def FirstTakenAfter (roster : Roster σ) (opcode : Opcode) (earlier qualifiers : List String)
    (qualifier : String) : Prop :=
  ∃ before later, qualifiers = before ++ qualifier :: later ∧
    roster.Taken opcode (before ++ earlier) qualifier ∧
    ∀ start other stop, before = start ++ other :: stop →
      ¬ roster.Taken opcode (start ++ earlier) other

section FirstTaken

variable {earlier rest : List String} {first qualifier : String}

theorem firstTakenAfter_nil_iff {qualifiers : List String} :
    roster.FirstTakenAfter opcode [] qualifiers qualifier ↔
      roster.FirstTaken opcode qualifiers qualifier := by
  simp only [FirstTakenAfter, FirstTaken, List.append_nil]

theorem firstTakenAfter_cons_of_taken (h : roster.Taken opcode earlier first) :
    roster.FirstTakenAfter opcode earlier (first :: rest) qualifier ↔ first = qualifier := by
  constructor
  · rintro ⟨before, later, hsplit, -, hfree⟩
    cases before with
    | nil => exact (List.cons.inj hsplit).1
    | cons other before =>
      obtain ⟨rfl, -⟩ := List.cons.inj hsplit
      exact absurd h (hfree [] first before rfl)
  · rintro rfl
    exact ⟨[], rest, rfl, h, by simp⟩

theorem firstTakenAfter_cons_of_not_taken (h : ¬ roster.Taken opcode earlier first) :
    roster.FirstTakenAfter opcode earlier (first :: rest) qualifier ↔
      roster.FirstTakenAfter opcode (first :: earlier) rest qualifier := by
  -- Whether the first one stands before or among those that were passed makes no difference.
  have hswap (before : List String) (other : String) :
      roster.Taken opcode (before ++ first :: earlier) other ↔
        roster.Taken opcode (first :: before ++ earlier) other :=
    Taken.congr fun _ => by simp [or_left_comm]
  simp only [FirstTakenAfter, hswap]
  constructor
  · rintro ⟨before, later, hsplit, hqualifier, hfree⟩
    cases before with
    | nil =>
      obtain ⟨rfl, -⟩ := List.cons.inj hsplit
      exact absurd hqualifier h
    | cons head before =>
      obtain ⟨rfl, rfl⟩ := List.cons.inj hsplit
      refine ⟨before, later, rfl, hqualifier, fun start other stop hsplit => ?_⟩
      exact hfree (first :: start) other stop (by rw [hsplit, List.cons_append])
  · rintro ⟨before, later, rfl, hqualifier, hfree⟩
    refine ⟨first :: before, later, rfl, hqualifier, fun start other stop hsplit => ?_⟩
    cases start with
    | nil =>
      obtain ⟨rfl, -⟩ := List.cons.inj hsplit
      exact h
    | cons head start =>
      obtain ⟨rfl, hrest⟩ := List.cons.inj hsplit
      exact hfree start other stop hrest

end FirstTaken

theorem entriesOf_cons :
    entriesOf (call :: roster) opcode =
      if call.opcode = opcode then call.toRegistration :: roster.entriesOf opcode
      else roster.entriesOf opcode := by
  by_cases h : call.opcode = opcode <;> simp [entriesOf, h]

/-- One registration more is one more for one instruction. -/
theorem length_flatMap_entriesOf_cons (opcodes : List Opcode) :
    (opcodes.flatMap (entriesOf (call :: roster))).length =
      opcodes.count call.opcode + (opcodes.flatMap roster.entriesOf).length := by
  induction opcodes with
  | nil => rfl
  | cons opcode opcodes ih =>
    rw [List.flatMap_cons, List.length_append, ih, entriesOf_cons, List.flatMap_cons,
      List.length_append, List.count_cons]
    by_cases h : opcode = call.opcode
    · simp only [h, beq_self_eq_true, if_true, List.length_cons]
      omega
    · simp only [h, Ne.symm h, beq_iff_eq, if_false]
      omega

/-- Every registration belongs to one instruction. -/
theorem length_flatMap_entriesOf {opcodes : List Opcode} (hnodup : opcodes.Nodup)
    (hmem : ∀ call ∈ roster, call.opcode ∈ opcodes) :
    (opcodes.flatMap roster.entriesOf).length = roster.length := by
  induction roster with
  | nil => exact List.length_eq_zero_iff.2 (List.flatMap_eq_nil_iff.2 fun _ _ => rfl)
  | cons call roster ih =>
    obtain ⟨hcall, hroster⟩ := List.forall_mem_cons.1 hmem
    rw [length_flatMap_entriesOf_cons, ih hroster, hnodup.count, if_pos hcall,
      List.length_cons, Nat.add_comm]

end Roster

namespace Processors

variable {processors : Processors σ} {roster : Roster σ} {call : RegistrationCall σ}

/-- The entries of each instruction are the registrations of it in the roster, and its index gives
their places. -/
structure Represents (processors : Processors σ) (roster : Roster σ) : Prop where
  entriesAt : ∀ opcode, (processors.entriesAt opcode).toList = roster.entriesOf opcode
  indexAt : ∀ opcode, (processors.indexAt opcode).Locates (roster.entriesOf opcode)
  /-- An instruction with an entry has processors. -/
  occupied : ∀ (opcode : Opcode) (entries : Array (Registration σ)),
    processors.entries[opcode]? = some entries → entries ≠ #[]

theorem represents_empty : (empty : Processors σ).Represents [] where
  entriesAt _ := rfl
  indexAt _ := QualifierIndex.locates_empty
  occupied _ _ h := nomatch h

/-- An instruction without an entry or without an index is one without processors. -/
theorem find?_eq (processors : Processors σ) (opcode : Opcode) (qualifier : Option String) :
    processors.find? opcode qualifier =
      qualifier.elim (processors.entriesAt opcode)[0]? fun qualifier =>
        (processors.indexAt opcode)[qualifier]?.bind fun position =>
          (processors.entriesAt opcode)[position]? := by
  unfold find? entriesAt indexAt
  cases processors.entries[opcode]? <;> cases qualifier <;>
    cases processors.qualified[opcode]? <;> simp

theorem entriesAt_insert (processors : Processors σ) (opcode other : Opcode)
    (entries : Array (Registration σ)) (qualified : Std.TreeMap Opcode QualifierIndex) :
    entriesAt ⟨processors.entries.insert opcode entries, qualified⟩ other =
      if other = opcode then entries else processors.entriesAt other := by
  unfold entriesAt
  rw [getElem?_insert_key]
  split <;> rfl

theorem indexAt_insert (processors : Processors σ) (opcode other : Opcode) (index : QualifierIndex)
    (entries : Std.TreeMap Opcode (Array (Registration σ))) :
    indexAt ⟨entries, processors.qualified.insert opcode index⟩ other =
      if other = opcode then index else processors.indexAt other := by
  unfold indexAt
  rw [getElem?_insert_key]
  split <;> rfl

section Register

variable {opcode : Opcode} {qualifiers : List String} {processor : Processor σ}

theorem register_of_taken {qualifier : String}
    (h : (processors.indexAt opcode).firstOverlap? [] qualifiers = some qualifier) :
    processors.register opcode qualifiers processor =
      (.error (.overlappingQualifier opcode qualifier),
        { processors with
          qualified := processors.qualified.insert opcode (processors.indexAt opcode) }) := by
  simp only [register, h]

theorem register_of_free (h : (processors.indexAt opcode).firstOverlap? [] qualifiers = none) :
    processors.register opcode qualifiers processor =
      (.ok (), {
        entries := processors.entries.insert opcode
          ((processors.entriesAt opcode).push ⟨qualifiers, processor⟩)
        qualified := processors.qualified.insert opcode
          ((processors.indexAt opcode).enter qualifiers (processors.entriesAt opcode).size) }) := by
  simp only [register, h]

theorem opcode_mem_qualified_register :
    opcode ∈ (processors.register opcode qualifiers processor).2.qualified := by
  unfold register
  dsimp only
  split <;> exact Std.TreeMap.mem_insert_self

end Register

namespace Represents

variable {opcode : Opcode} {earlier qualifiers : List String} {qualifier : String}

theorem taken_iff (h : processors.Represents roster) :
    ((processors.indexAt opcode).contains qualifier || earlier.contains qualifier) = true ↔
      roster.Taken opcode earlier qualifier := by
  rw [Bool.or_eq_true, (h.indexAt opcode).contains_iff, List.contains_iff_mem, Roster.taken_iff,
    or_comm]

/-- The search for a qualifier that is taken goes through the list and remembers those before. -/
theorem firstOverlap?_eq_some_iff (h : processors.Represents roster) :
    (processors.indexAt opcode).firstOverlap? earlier qualifiers = some qualifier ↔
      roster.FirstTakenAfter opcode earlier qualifiers qualifier := by
  induction qualifiers generalizing earlier with
  | nil => simp [QualifierIndex.firstOverlap?, Roster.FirstTakenAfter]
  | cons first rest ih =>
    unfold QualifierIndex.firstOverlap?
    by_cases htaken : roster.Taken opcode earlier first
    · rw [if_pos (h.taken_iff.2 htaken), Option.some.injEq,
        Roster.firstTakenAfter_cons_of_taken htaken]
    · rw [if_neg (mt h.taken_iff.1 htaken), ih, Roster.firstTakenAfter_cons_of_not_taken htaken]

/-- Nothing is taken iff the qualifiers differ from each other and from those before. -/
theorem firstOverlap?_eq_none_iff (h : processors.Represents roster) :
    (processors.indexAt opcode).firstOverlap? earlier qualifiers = none ↔
      qualifiers.Nodup ∧ ∀ qualifier ∈ qualifiers, ¬ roster.Taken opcode earlier qualifier := by
  induction qualifiers generalizing earlier with
  | nil => simp [QualifierIndex.firstOverlap?]
  | cons first rest ih =>
    unfold QualifierIndex.firstOverlap?
    by_cases htaken : roster.Taken opcode earlier first
    · rw [if_pos (h.taken_iff.2 htaken)]
      simp [htaken]
    · have hcons (other : String) : roster.Taken opcode (first :: earlier) other ↔
          other = first ∨ roster.Taken opcode earlier other := by
        simp [Roster.Taken, or_assoc]
      rw [if_neg (mt h.taken_iff.1 htaken), ih]
      simp only [hcons, List.nodup_cons, List.forall_mem_cons, htaken]
      grind

theorem firstOverlap?_eq_none_iff_admits (h : processors.Represents roster) :
    (processors.indexAt call.opcode).firstOverlap? [] call.qualifiers = none ↔
      roster.Admits call := by
  rw [h.firstOverlap?_eq_none_iff, Roster.Admits]
  refine and_congr_right fun _ => ?_
  simp only [Roster.Taken, List.not_mem_nil, false_or]
  grind

theorem request_eq_ok_iff (h : processors.Represents roster) :
    (processors.request call).1 = .ok () ↔ roster.Admits call := by
  rw [← h.firstOverlap?_eq_none_iff_admits]
  unfold request
  rcases hoverlap : (processors.indexAt call.opcode).firstOverlap? [] call.qualifiers with
    _ | qualifier
  · simp only [register_of_free hoverlap]
  · simp [register_of_taken hoverlap]

theorem request_eq_error_iff (h : processors.Represents roster) {error : RegistrationError} :
    (processors.request call).1 = .error error ↔
      ∃ qualifier, roster.FirstTaken call.opcode call.qualifiers qualifier ∧
        error = .overlappingQualifier call.opcode qualifier := by
  have hfirst (qualifier : String) :
      (processors.indexAt call.opcode).firstOverlap? [] call.qualifiers = some qualifier ↔
        roster.FirstTaken call.opcode call.qualifiers qualifier := by
    rw [h.firstOverlap?_eq_some_iff, Roster.firstTakenAfter_nil_iff]
  simp only [← hfirst]
  unfold request
  rcases hoverlap : (processors.indexAt call.opcode).firstOverlap? [] call.qualifiers with
    _ | qualifier
  · simp [register_of_free hoverlap]
  · simp [register_of_taken hoverlap, eq_comm]

/-- A registration that is accepted comes last in the roster. -/
theorem request_ok (h : processors.Represents roster) (hadmits : roster.Admits call) :
    (processors.request call).2.Represents (roster ++ [call]) := by
  unfold request
  rw [register_of_free (h.firstOverlap?_eq_none_iff_admits.2 hadmits)]
  refine ⟨fun opcode => ?_, fun opcode => ?_, fun opcode entries hentries => ?_⟩
  · rw [entriesAt_insert]
    split
    · rename_i hopcode
      rw [hopcode, Roster.entriesOf_append_self, ← h.entriesAt, Array.toList_push]
    · rename_i hopcode
      rw [Roster.entriesOf_append_of_ne hopcode]
      exact h.entriesAt opcode
  · rw [indexAt_insert]
    split
    · rename_i hopcode
      have hsize : (processors.entriesAt call.opcode).size =
          (roster.entriesOf call.opcode).length := by
        rw [← h.entriesAt, Array.length_toList]
      rw [hopcode, Roster.entriesOf_append_self, hsize]
      exact (h.indexAt call.opcode).enter fun _ => hadmits.free_of_mem_entriesOf
    · rename_i hopcode
      rw [Roster.entriesOf_append_of_ne hopcode]
      exact h.indexAt opcode
  · rw [getElem?_insert_key] at hentries
    split at hentries
    · cases hentries
      exact Array.push_ne_empty
    · exact h.occupied opcode entries hentries

/-- A registration that is refused alters no entry and no index, although its instruction has an
index afterwards. -/
theorem request_refused (h : processors.Represents roster) (hadmits : ¬ roster.Admits call) :
    (processors.request call).2.Represents roster := by
  obtain ⟨qualifier, hoverlap⟩ :=
    Option.ne_none_iff_exists'.1 (mt h.firstOverlap?_eq_none_iff_admits.1 hadmits)
  unfold request
  rw [register_of_taken hoverlap]
  refine ⟨h.entriesAt, fun opcode => ?_, h.occupied⟩
  rw [indexAt_insert]
  split
  · rename_i hopcode
    rw [hopcode]
    exact h.indexAt call.opcode
  · exact h.indexAt opcode

/-- One more call, accepted or refused, is one more for the roster. -/
theorem request (h : processors.Represents roster) (call : RegistrationCall σ) :
    (processors.request call).2.Represents (roster.accept call) := by
  unfold Roster.accept
  split
  · rename_i hadmits
    exact h.request_ok hadmits
  · rename_i hrefused
    exact h.request_refused hrefused

/-- If no registration is refused, all of them are in the roster. -/
theorem registerAll {entries : List (Opcode × List String × Processor σ)}
    (h : processors.Represents roster) (hall : (processors.registerAll entries).1 = .ok ()) :
    (processors.registerAll entries).2.Represents (roster ++ entries.map .ofEntry) := by
  induction entries generalizing processors roster with
  | nil =>
    rw [List.map_nil, List.append_nil]
    exact h
  | cons first rest ih =>
    rcases first with ⟨opcode, qualifiers, processor⟩
    unfold Processors.registerAll at hall ⊢
    rcases hregister : processors.register opcode qualifiers processor with ⟨_ | ⟨⟨⟩⟩, after⟩
    · rw [hregister] at hall
      cases hall
    · rw [hregister] at hall
      let call : RegistrationCall σ := .ofEntry (opcode, qualifiers, processor)
      have hrequest : processors.request call = (.ok (), after) := hregister
      have hadmits : roster.Admits call := by rw [← h.request_eq_ok_iff, hrequest]
      have hafter := h.request_ok hadmits
      rw [hrequest] at hafter
      rw [List.map_cons, ← List.singleton_append, ← List.append_assoc]
      exact ih hafter hall

end Represents

/-- The processors after any calls are those of the accepted ones. -/
theorem represents_ofCalls (calls : List (RegistrationCall σ)) :
    (ofCalls calls).Represents (Roster.ofCalls calls) := by
  suffices h : ∀ (processors : Processors σ) (roster : Roster σ), processors.Represents roster →
      (calls.foldl (fun processors call => (processors.request call).2) processors).Represents
        (calls.foldl Roster.accept roster) from
    h empty [] represents_empty
  induction calls with
  | nil => exact fun _ _ h => h
  | cons call calls ih => exact fun _ _ h => ih _ _ (h.request call)

end Processors

/-! ## Searching the roster -/

namespace Roster

variable {roster : Roster σ} {call : RegistrationCall σ}

theorem Separate.append (h : roster.Separate) (hadmits : roster.Admits call) :
    Separate (roster ++ [call]) := by
  refine List.pairwise_append.2 ⟨h, List.pairwise_singleton _ _, fun first hfirst last hlast => ?_⟩
  obtain rfl := List.mem_singleton.1 hlast
  intro hopcode qualifier hqualifier hshared
  exact hadmits.2 first hfirst hopcode qualifier hshared hqualifier

theorem Separate.accept (h : roster.Separate) : (roster.accept call).Separate := by
  unfold Roster.accept
  split
  · rename_i hadmits
    exact h.append hadmits
  · exact h

theorem mem_of_search? {opcode : Opcode} {qualifier : Option String}
    (h : roster.search? opcode qualifier = some call) : call ∈ roster ∧ call.opcode = opcode := by
  cases qualifier with
  | none =>
    have hfound := List.find?_some h
    exact ⟨List.mem_of_find?_eq_some h, of_decide_eq_true hfound⟩
  | some qualifier =>
    have hfound := List.find?_some h
    exact ⟨List.mem_of_find?_eq_some h, (of_decide_eq_true hfound).1⟩

theorem separate_ofCalls (calls : List (RegistrationCall σ)) : (ofCalls calls).Separate := by
  suffices h : ∀ roster : Roster σ, roster.Separate → (calls.foldl accept roster).Separate from
    h [] List.Pairwise.nil
  induction calls with
  | nil => exact fun _ h => h
  | cons call calls ih => exact fun _ h => ih _ h.accept

end Roster

namespace Processors

variable {processors : Processors σ} {roster : Roster σ}

theorem Represents.find?_eq (h : processors.Represents roster) (opcode : Opcode)
    (qualifier : Option String) :
    processors.find? opcode qualifier =
      (roster.search? opcode qualifier).map (·.toRegistration) := by
  rw [Processors.find?_eq]
  simp only [← Array.getElem?_toList, h.entriesAt]
  cases qualifier with
  | none =>
    rw [Option.elim_none, ← List.head?_eq_getElem?, Roster.entriesOf, List.head?_map,
      List.head?_filter]
    rfl
  | some qualifier =>
    rw [Option.elim_some, (h.indexAt opcode).find_eq, Roster.entriesOf, List.find?_map,
      List.find?_filter]
    simp only [Roster.search?, Function.comp_def, Bool.decide_and, Bool.decide_eq_true]

theorem Represents.mem_qualifiers (h : processors.Represents roster) {opcode : Opcode}
    {qualifier : String} {entry : Registration σ}
    (hfound : processors.find? opcode (some qualifier) = some entry) :
    qualifier ∈ entry.qualifiers := by
  rw [h.find?_eq, Option.map_eq_some_iff] at hfound
  obtain ⟨call, hcall, rfl⟩ := hfound
  have hsearched := List.find?_some hcall
  exact (of_decide_eq_true hsearched).2

/-- Adding up sizes comes to counting what the arrays hold. -/
theorem foldl_size_eq {α : Type} {held : Opcode → List α} {pairs : List (Opcode × Array α)}
    (h : ∀ pair ∈ pairs, pair.2.toList = held pair.1) (count : Nat) :
    pairs.foldl (fun count pair => count + pair.2.size) count =
      count + ((pairs.map Prod.fst).flatMap held).length := by
  induction pairs generalizing count with
  | nil => rfl
  | cons pair pairs ih =>
    obtain ⟨hpair, hpairs⟩ := List.forall_mem_cons.1 h
    rw [List.foldl_cons, ih hpairs, List.map_cons, List.flatMap_cons, List.length_append, ← hpair,
      ← Array.length_toList, Nat.add_assoc]

/-- The sum over the entries counts every registration once, under its instruction. -/
theorem Represents.size_eq (h : processors.Represents roster) :
    processors.size = roster.length := by
  have hmem : ∀ call ∈ roster, call.opcode ∈ processors.entries.keys := by
    intro call hcall
    have hentry : call.toRegistration ∈ (processors.entriesAt call.opcode).toList := by
      rw [h.entriesAt]
      exact Roster.mem_entriesOf_iff.2 ⟨call, hcall, rfl, rfl⟩
    rw [Std.TreeMap.mem_keys, Std.TreeMap.mem_iff_isSome_getElem?]
    unfold Processors.entriesAt at hentry
    cases hentries : processors.entries[call.opcode]? with
    | none => simp [hentries] at hentry
    | some entries => rfl
  have hentries : ∀ pair ∈ processors.entries.toList, pair.2.toList = roster.entriesOf pair.1 := by
    rintro ⟨opcode, entries⟩ hpair
    have hopcode := Std.TreeMap.mem_toList_iff_getElem?_eq_some.1 hpair
    rw [← h.entriesAt, Processors.entriesAt, hopcode, Option.getD_some]
  unfold size
  rw [Std.TreeMap.foldl_eq_foldl_toList, foldl_size_eq hentries, Nat.zero_add,
    Std.TreeMap.map_fst_toList_eq_keys, Roster.length_flatMap_entriesOf Std.TreeMap.nodup_keys hmem]

theorem Represents.isEmpty_iff (h : processors.Represents roster) :
    processors.isEmpty = true ↔ processors.size = 0 := by
  unfold isEmpty
  constructor
  · intro hempty
    rw [← Std.TreeMap.isEmpty_toList, List.isEmpty_iff] at hempty
    unfold size
    rw [Std.TreeMap.foldl_eq_foldl_toList, hempty, List.foldl_nil]
  · intro hsize
    rw [h.size_eq, List.length_eq_zero_iff] at hsize
    subst hsize
    rw [Std.TreeMap.isEmpty_iff_forall_not_mem]
    intro opcode hopcode
    rw [Std.TreeMap.mem_iff_isSome_getElem?, Option.isSome_iff_exists] at hopcode
    obtain ⟨entries, hentries⟩ := hopcode
    have hnone : entries.toList = [] := by
      have hentriesAt := h.entriesAt opcode
      rwa [Processors.entriesAt, hentries, Option.getD_some] at hentriesAt
    exact h.occupied opcode entries hentries (Array.toList_eq_nil_iff.1 hnone)

theorem Represents.follows (h : processors.Represents roster) (hseparate : roster.Separate) :
    processors.Follows roster where
  refuses _ _ := h.request_eq_error_iff
  accepts _ := h.request_eq_ok_iff
  find := h.find?_eq
  belongs _ _ _ := h.mem_qualifiers
  separate := hseparate
  isRegistered opcode qualifier := by
    unfold isRegistered
    rw [h.find?_eq, Option.isSome_map]
  dispatch opcode qualifier values host := by
    unfold dispatch
    rw [h.find?_eq]
    cases roster.search? opcode qualifier <;> rfl
  size := h.size_eq
  isEmpty := h.isEmpty_iff

/-- What follows one roster is alike. -/
theorem Follows.alike {first second : Processors σ} (hfirst : first.Follows roster)
    (hsecond : second.Follows roster) : first.Alike second where
  request call := by
    rcases hresult : (second.request call).1 with error | ⟨⟨⟩⟩
    · exact (hfirst.refuses call error).2 ((hsecond.refuses call error).1 hresult)
    · exact (hfirst.accepts call).2 ((hsecond.accepts call).1 hresult)
  isRegistered opcode qualifier :=
    (hfirst.isRegistered opcode qualifier).trans (hsecond.isRegistered opcode qualifier).symm
  dispatch opcode qualifier values := by
    unfold Processors.dispatch
    rw [hfirst.find, hsecond.find]
  size := hfirst.size.trans hsecond.size.symm
  isEmpty := by
    rw [Bool.eq_iff_iff, hfirst.isEmpty, hsecond.isEmpty, hfirst.size, hsecond.size]

/-- After any calls the processors cannot be told from the roster of the accepted ones. One more
call that is accepted adds just itself. One that is refused makes an index for its instruction, and
yet the processors cannot be told from those before it. -/
theorem ofCalls_follows_roster (calls : List (RegistrationCall σ)) :
    (ofCalls calls).Follows (Roster.ofCalls calls) ∧
      ∀ call : RegistrationCall σ,
        call.opcode ∈ ((ofCalls calls).request call).2.qualified ∧
        match (ofCalls calls).request call with
        | (.ok (), after) => after.Follows (Roster.ofCalls calls ++ [call])
        | (.error _, after) =>
          after.Follows (Roster.ofCalls calls) ∧ after.Alike (ofCalls calls) := by
  have hrepresents := represents_ofCalls calls
  have hseparate := Roster.separate_ofCalls calls
  have hfollows := hrepresents.follows hseparate
  refine ⟨hfollows, fun call => ⟨opcode_mem_qualified_register, ?_⟩⟩
  rcases hresult : (ofCalls calls).request call with ⟨error | ⟨⟨⟩⟩, after⟩
  · have hrefused : ¬ (Roster.ofCalls calls).Admits call := by
      rw [← hrepresents.request_eq_ok_iff, hresult]
      nofun
    have hafter : after.Follows (Roster.ofCalls calls) := by
      have hrequest := hrepresents.request_refused hrefused
      rw [hresult] at hrequest
      exact hrequest.follows hseparate
    exact ⟨hafter, hafter.alike hfollows⟩
  · have hadmits : (Roster.ofCalls calls).Admits call := by
      rw [← hrepresents.request_eq_ok_iff, hresult]
    have hrequest := hrepresents.request_ok hadmits
    rw [hresult] at hrequest
    exact hrequest.follows (hseparate.append hadmits)

/-- A call that is refused leaves an index behind, but no processor. -/
example :
    let after := ((empty : Processors Unit).register .send ["include", "include"]
      fun _ => return .nil).2
    after.qualified.contains .send = true ∧ after.isEmpty = true ∧ after.size = 0 := by
  decide +kernel

end Processors

end ClassIndex
