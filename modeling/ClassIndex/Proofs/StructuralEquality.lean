import ClassIndex.Code.Listing
import ClassIndex.Code.Parameter
import ClassIndex.Proofs.Trees
import Mathlib.Data.List.Forall2
import Mathlib.Tactic.Tauto

/-!
# Structural equality of sequences

Sequences compare by all that they say, down to the literals in their operands and in the defaults
of their parameters, and floats among these compare as numbers.  `Sequence.unsigned` is a sequence
with the signs of its zeros and all identities taken away.  Two sequences are equal if and only if
neither holds a NaN and both are the same in this form (`Sequence.comparesBy`).

Hence equality is symmetric and transitive, and it is reflexive on sequences without a NaN.  Equal
sequences without zeros have the same listing and the same signature.  All of this is collected in
`Sequence.equality_by_form`.
-/

namespace ClassIndex

/-! ## Comparison by form -/

section Compares

variable {α β : Type} {equal : α → α → Prop} {good : α → Prop} {form : α → β}

/-- A value is equal to those of the same form, as long as it is good and they are. -/
def ComparesBy (equal : α → α → Prop) (good : α → Prop) (form : α → β) (a : α) : Prop :=
  ∀ b, equal a b ↔ good a ∧ good b ∧ form a = form b

/-- Lists compare position by position. -/
theorem ComparesBy.forall₂ {values : List α}
    (h : ∀ a ∈ values, ComparesBy equal good form a) :
    ComparesBy (List.Forall₂ equal) (fun values => ∀ a ∈ values, good a) (List.map form)
      values := by
  induction values with
  | nil =>
    intro others
    cases others <;> simp
  | cons a values ih =>
    intro others
    cases others with
    | nil => simp
    | cons b others =>
      rw [List.forall_mem_cons] at h
      rw [List.forall₂_cons, h.1 b, ih h.2 others]
      simp only [List.forall_mem_cons, List.map_cons, List.cons.injEq]
      tauto

theorem list_beq_iff_forall₂ [BEq α] {values others : List α} :
    (values == others) = true ↔ List.Forall₂ (fun a b => (a == b) = true) values others := by
  induction values generalizing others with
  | nil => cases others <;> simp
  | cons a values ih => cases others <;> simp [ih]

/-- An absent list is equal to no other. -/
theorem ComparesBy.option [BEq α] (h : ∀ a, ComparesBy (fun a b => (a == b) = true) good form a)
    (values : Option (List α)) :
    ComparesBy (fun values others => (values == others) = true)
      (fun values => ∀ a ∈ values.getD [], good a) (Option.map (List.map form)) values := by
  intro others
  cases values with
  | none => cases others <;> simp
  | some values =>
    cases others with
    | none => simp
    | some others =>
      show (values == others) = true ↔ _
      rw [list_beq_iff_forall₂, ComparesBy.forall₂ (fun a _ => h a) others]
      simp

end Compares

/-! ## Literals -/

namespace Binary64

/-- The number without the sign of a zero. -/
def unsigned (x : Binary64) : Binary64 :=
  if x.isZero then ⟨0⟩ else x

theorem isZero_unsigned (x : Binary64) : x.unsigned.isZero = x.isZero := by
  unfold unsigned
  split
  · rename_i hzero
    rw [hzero]
    rfl
  · rfl

theorem unsigned_eq_iff {x y : Binary64} :
    x.unsigned = y.unsigned ↔ x.bits = y.bits ∨ x.isZero = true ∧ y.isZero = true := by
  have hbits : x.bits = y.bits ↔ x = y := ⟨fun h => by cases x; cases y; exact congrArg _ h,
    congrArg _⟩
  rw [hbits]
  constructor
  · intro h
    have hzero : x.isZero = y.isZero := by rw [← isZero_unsigned, h, isZero_unsigned]
    unfold unsigned at h
    rw [hzero] at h ⊢
    split at h
    · exact Or.inr ⟨‹_›, ‹_›⟩
    · exact Or.inl h
  · rintro (rfl | ⟨hx, hy⟩)
    · rfl
    · rw [unsigned, unsigned, if_pos hx, if_pos hy]

theorem comparesBy (x : Binary64) :
    ComparesBy (fun x y : Binary64 => (x == y) = true) (fun x => x.isNaN = false) unsigned x := by
  intro y
  show x.equal y = true ↔ _
  simp only [equal, unsigned_eq_iff, Bool.and_eq_true, Bool.or_eq_true, Bool.not_eq_true',
    beq_iff_eq, and_assoc]

end Binary64

namespace Literal

/-- The literal without the sign of a zero. -/
def unsigned : Literal → Literal
  | float x => float x.unsigned
  | literal => literal

def isNaN : Literal → Bool
  | float x => x.isNaN
  | _ => false

/-- Either of the two zeros among the floats. -/
def isZero : Literal → Bool
  | float x => x.isZero
  | _ => false

theorem isZero_unsigned (literal : Literal) : literal.unsigned.isZero = literal.isZero := by
  cases literal with
  | float x => exact x.isZero_unsigned
  | symbol _ | string _ | integer _ | bool _ => rfl

theorem unsigned_of_not_isZero {literal : Literal} (h : literal.isZero = false) :
    literal.unsigned = literal := by
  cases literal with
  | float x => exact congrArg float (if_neg (Bool.not_eq_true _ ▸ h))
  | symbol _ | string _ | integer _ | bool _ => rfl

theorem comparesBy (literal : Literal) :
    ComparesBy (fun a b : Literal => (a == b) = true) (fun a => a.isNaN = false) unsigned
      literal := by
  intro other
  show literal.equal other = true ↔ _
  cases literal with
  | float x =>
    cases other with
    | float y => simpa [equal, isNaN, unsigned] using x.comparesBy y
    | symbol _ | string _ | integer _ | bool _ => simp [equal, unsigned]
  | symbol _ | string _ | integer _ | bool _ => cases other <;> simp [equal, isNaN, unsigned]

end Literal

/-! ## Layouts -/

namespace Keyword

def default? : Keyword → Option Literal
  | required _ => none
  | optional _ default => some default

def mapDefault (change : Literal → Literal) : Keyword → Keyword
  | required name => required name
  | optional name default => optional name (change default)

theorem default?_mapDefault (change : Literal → Literal) (keyword : Keyword) :
    (keyword.mapDefault change).default? = keyword.default?.map change := by
  cases keyword <;> rfl

theorem comparesBy (keyword : Keyword) :
    ComparesBy (fun a b : Keyword => (a == b) = true)
      (fun a => ∀ literal ∈ a.default?, literal.isNaN = false) (mapDefault Literal.unsigned)
      keyword := by
  intro other
  cases keyword with
  | required name =>
    cases other <;> simp [BEq.beq, instBEqKeyword.beq, default?, mapDefault]
  | optional name value =>
    cases other with
    | required _ => simp [BEq.beq, instBEqKeyword.beq, mapDefault]
    | optional otherName otherValue =>
      have hvalues := value.comparesBy otherValue
      have hequal : (optional name value == optional otherName otherValue) = true ↔
          name = otherName ∧ (value == otherValue) = true := by
        show (name == otherName && value == otherValue) = true ↔ _
        rw [Bool.and_eq_true, beq_iff_eq]
      simp only [hequal, hvalues, default?, mapDefault, Option.mem_some_iff, forall_eq',
        optional.injEq]
      tauto

end Keyword

namespace ParameterLayout

/-- The defaults of the optional parameters and of the keywords. -/
def literals (layout : ParameterLayout) : List Literal :=
  layout.defaults.getD [] ++ (layout.keywords.getD []).filterMap Keyword.default?

def mapLiterals (change : Literal → Literal) (layout : ParameterLayout) : ParameterLayout :=
  { layout with
    defaults := layout.defaults.map (List.map change)
    keywords := layout.keywords.map (List.map (Keyword.mapDefault change)) }

theorem literals_mapLiterals (change : Literal → Literal) (layout : ParameterLayout) :
    (layout.mapLiterals change).literals = layout.literals.map change := by
  have hdefaults (values : Option (List Literal)) :
      (values.map (List.map change)).getD [] = (values.getD []).map change := by
    cases values <;> rfl
  have hkeywords (keywords : Option (List Keyword)) :
      (keywords.map (List.map (Keyword.mapDefault change))).getD [] =
        (keywords.getD []).map (Keyword.mapDefault change) := by
    cases keywords <;> rfl
  simp only [literals, mapLiterals, hdefaults, hkeywords, List.map_append, List.filterMap_map,
    List.map_filterMap, Function.comp_def, Keyword.default?_mapDefault]

theorem mapLiterals_id (layout : ParameterLayout) :
    (layout.mapLiterals fun literal => literal) = layout := by
  have hkeywords : (Keyword.mapDefault fun literal => literal) = id := by
    funext keyword
    cases keyword <;> rfl
  simp only [mapLiterals, hkeywords, List.map_id_fun, List.map_id_fun', Option.map_id, id_eq]

theorem mapLiterals_mapLiterals (first second : Literal → Literal) (layout : ParameterLayout) :
    (layout.mapLiterals first).mapLiterals second = layout.mapLiterals (second ∘ first) := by
  have hkeywords : Keyword.mapDefault second ∘ Keyword.mapDefault first =
      Keyword.mapDefault (second ∘ first) := by
    funext keyword
    cases keyword <;> rfl
  simp only [mapLiterals, Option.map_map, List.map_comp_map, hkeywords]

theorem forall_mem_literals {layout : ParameterLayout} {good : Literal → Prop} :
    (∀ literal ∈ layout.literals, good literal) ↔
      (∀ literal ∈ layout.defaults.getD [], good literal) ∧
        ∀ keyword ∈ layout.keywords.getD [], ∀ literal ∈ keyword.default?, good literal := by
  simp only [literals, List.forall_mem_append, List.mem_filterMap, forall_exists_index, and_imp,
    Option.mem_def]
  exact and_congr_right fun _ => forall_comm.trans (forall_congr' fun _ => forall_comm)

/-- A change matters only on the literals that are there. -/
theorem mapLiterals_congr {change other : Literal → Literal} {layout : ParameterLayout}
    (h : ∀ literal ∈ layout.literals, change literal = other literal) :
    layout.mapLiterals change = layout.mapLiterals other := by
  obtain ⟨hdefaults, hkeywords⟩ := forall_mem_literals.1 h
  rcases layout with ⟨lead, defaults, rest, keywords, keywordRest⟩
  have hmapDefault : ∀ keyword ∈ keywords.getD [],
      keyword.mapDefault change = keyword.mapDefault other := by
    intro keyword hkeyword
    cases keyword with
    | required _ => rfl
    | optional _ value => exact congrArg _ (hkeywords _ hkeyword value rfl)
  have hmapDefaults : defaults.map (List.map change) = defaults.map (List.map other) := by
    cases defaults with
    | none => rfl
    | some values => exact congrArg some (List.map_congr_left hdefaults)
  have hmapKeywords : keywords.map (List.map (Keyword.mapDefault change)) =
      keywords.map (List.map (Keyword.mapDefault other)) := by
    cases keywords with
    | none => rfl
    | some values => exact congrArg some (List.map_congr_left hmapDefault)
  simp only [mapLiterals, hmapDefaults, hmapKeywords]

theorem beq_iff {layout other : ParameterLayout} :
    (layout == other) = true ↔
      layout.lead = other.lead ∧ (layout.defaults == other.defaults) = true ∧
        layout.rest = other.rest ∧ (layout.keywords == other.keywords) = true ∧
          layout.keywordRest = other.keywordRest := by
  rcases layout with ⟨lead, defaults, rest, keywords, keywordRest⟩
  rcases other with ⟨otherLead, otherDefaults, otherRest, otherKeywords, otherKeywordRest⟩
  show (lead == otherLead && (defaults == otherDefaults && (rest == otherRest &&
    (keywords == otherKeywords && keywordRest == otherKeywordRest)))) = true ↔ _
  simp only [Bool.and_eq_true, beq_iff_eq]

theorem comparesBy (layout : ParameterLayout) :
    ComparesBy (fun a b : ParameterLayout => (a == b) = true)
      (fun a => ∀ literal ∈ a.literals, literal.isNaN = false) (mapLiterals Literal.unsigned)
      layout := by
  intro other
  have hdefaults := ComparesBy.option Literal.comparesBy layout.defaults other.defaults
  have hkeywords := ComparesBy.option Keyword.comparesBy layout.keywords other.keywords
  simp only [beq_iff, hdefaults, hkeywords, forall_mem_literals, mapLiterals, mk.injEq]
  tauto

end ParameterLayout

/-! ## The literals of a sequence -/

def Operand.literal? : Operand → Option Literal
  | literal value => some value
  | _ => none

namespace Sequence

/-- The literals of a sequence without those in the sequences inside it. -/
def ownLiterals (s : Sequence) : List Literal :=
  (s.code.flatMap fun instruction => instruction.operands.filterMap Operand.literal?) ++
    s.parameters.literals

/-- Every literal of a sequence: in operands and in defaults of parameters, at any depth. -/
def literals (s : Sequence) : List Literal :=
  s.unfold.flatMap ownLiterals

/-- No float among the literals is a NaN. -/
def NaNFree (s : Sequence) : Prop :=
  ∀ literal ∈ s.literals, literal.isNaN = false

/-- No float among the literals is a zero. -/
def ZeroFree (s : Sequence) : Prop :=
  ∀ literal ∈ s.literals, literal.isZero = false

end Sequence

def Operand.literals : Operand → List Literal
  | literal value => [value]
  | sequence body => body.literals
  | nil | call _ => []

theorem Operand.mem_literals_iff {operand : Operand} {literal : Literal} :
    literal ∈ operand.literals ↔
      operand.literal? = some literal ∨
        ∃ body, operand.sequence? = some body ∧ literal ∈ body.literals := by
  cases operand <;> simp [literals, literal?, sequence?, eq_comm]

theorem Sequence.literals_eq_append (s : Sequence) :
    s.literals = s.ownLiterals ++ s.nested.flatMap literals := by
  rw [literals, unfold_eq_cons, List.flatMap_cons, List.flatMap_assoc]
  rfl

theorem Sequence.mem_literals_iff {s : Sequence} {literal : Literal} :
    literal ∈ s.literals ↔
      (∃ instruction ∈ s.code, ∃ operand ∈ instruction.operands, literal ∈ operand.literals) ∨
        literal ∈ s.parameters.literals := by
  rw [literals_eq_append]
  simp only [ownLiterals, nested, Instruction.nested, List.mem_append, List.mem_flatMap,
    List.mem_filterMap, Operand.mem_literals_iff]
  grind

/-! ## Changing the literals -/

mutual

/-- An operand with its literals changed and its sequences without an identity. -/
def Operand.anonymous (change : Literal → Literal) : Operand → Operand
  | .nil => .nil
  | .literal value => .literal (change value)
  | .sequence body => .sequence (body.anonymous change)
  | .call site => .call site

/-- The changed operands, in order. -/
def Operand.anonymousList (change : Literal → Literal) : List Operand → List Operand
  | [] => []
  | operand :: rest => operand.anonymous change :: Operand.anonymousList change rest

/-- An instruction with its operands changed. -/
def Instruction.anonymous (change : Literal → Literal) : Instruction → Instruction
  | ⟨opcode, operands⟩ => ⟨opcode, Operand.anonymousList change operands⟩

/-- The changed instructions, in order. -/
def Instruction.anonymousList (change : Literal → Literal) : List Instruction → List Instruction
  | [] => []
  | instruction :: rest => instruction.anonymous change :: Instruction.anonymousList change rest

/-- A sequence with its literals changed, and without the identity of any sequence in it. -/
def Sequence.anonymous (change : Literal → Literal) : Sequence → Sequence
  | ⟨_, label, kind, path, code, parameters, locals⟩ =>
    ⟨⟨0⟩, label, kind, path, Instruction.anonymousList change code,
      parameters.mapLiterals change, locals⟩

end

theorem Operand.anonymousList_eq_map (change : Literal → Literal) (operands : List Operand) :
    anonymousList change operands = operands.map (anonymous change) := by
  induction operands with
  | nil => rw [anonymousList, List.map_nil]
  | cons operand rest ih => rw [anonymousList, ih, List.map_cons]

theorem Instruction.anonymous_eq (change : Literal → Literal) (instruction : Instruction) :
    instruction.anonymous change =
      ⟨instruction.opcode, instruction.operands.map (Operand.anonymous change)⟩ := by
  rcases instruction with ⟨opcode, operands⟩
  rw [anonymous, Operand.anonymousList_eq_map]

theorem Instruction.anonymousList_eq_map (change : Literal → Literal) (code : List Instruction) :
    anonymousList change code = code.map (anonymous change) := by
  induction code with
  | nil => rw [anonymousList, List.map_nil]
  | cons instruction rest ih => rw [anonymousList, ih, List.map_cons]

theorem Operand.sequence?_anonymous (change : Literal → Literal) (operand : Operand) :
    (operand.anonymous change).sequence? =
      operand.sequence?.map (Sequence.anonymous change) := by
  cases operand <;> rw [anonymous] <;> rfl

theorem Operand.literal?_anonymous (change : Literal → Literal) (operand : Operand) :
    (operand.anonymous change).literal? = operand.literal?.map change := by
  cases operand <;> rw [anonymous] <;> rfl

namespace Sequence

variable {change : Literal → Literal}

theorem anonymous_eq (change : Literal → Literal) (s : Sequence) :
    s.anonymous change =
      ⟨⟨0⟩, s.label, s.kind, s.path, s.code.map (Instruction.anonymous change),
        s.parameters.mapLiterals change, s.locals⟩ := by
  rcases s with ⟨id, label, kind, path, code, parameters, locals⟩
  rw [anonymous, Instruction.anonymousList_eq_map]

/-- A sequence without identities. -/
def content (s : Sequence) : Sequence :=
  s.anonymous fun literal => literal

/-- A sequence without identities and without the signs of its zeros. -/
def unsigned (s : Sequence) : Sequence :=
  s.anonymous Literal.unsigned

/-- A change matters only on the literals that are there. -/
theorem anonymous_congr {change other : Literal → Literal} (s : Sequence)
    (h : ∀ literal ∈ s.literals, change literal = other literal) :
    s.anonymous change = s.anonymous other := by
  induction s using nested_induction with
  | step s ih =>
    have hoperands : ∀ instruction ∈ s.code, ∀ operand ∈ instruction.operands,
        operand.anonymous change = operand.anonymous other := by
      intro instruction hinstruction operand hoperand
      have hliterals : ∀ literal ∈ operand.literals, change literal = other literal :=
        fun literal hliteral =>
          h literal (mem_literals_iff.2 (Or.inl ⟨_, hinstruction, _, hoperand, hliteral⟩))
      cases operand with
      | literal value =>
        rw [Operand.anonymous, Operand.anonymous, hliterals value (List.mem_singleton_self _)]
      | sequence body =>
        rw [Operand.anonymous, Operand.anonymous,
          ih body (mem_nested hinstruction hoperand) hliterals]
      | nil | call _ => rw [Operand.anonymous, Operand.anonymous]
    have hcode : s.code.map (Instruction.anonymous change) =
        s.code.map (Instruction.anonymous other) :=
      List.map_congr_left fun instruction hinstruction => by
        rw [Instruction.anonymous_eq, Instruction.anonymous_eq,
          List.map_congr_left (hoperands instruction hinstruction)]
    have hparameters : s.parameters.mapLiterals change = s.parameters.mapLiterals other :=
      ParameterLayout.mapLiterals_congr fun literal hliteral =>
        h literal (mem_literals_iff.2 (Or.inr hliteral))
    rw [anonymous_eq, anonymous_eq, hcode, hparameters]

theorem anonymous_anonymous (first second : Literal → Literal) (s : Sequence) :
    (s.anonymous first).anonymous second = s.anonymous (second ∘ first) := by
  induction s using nested_induction with
  | step s ih =>
    have hoperands : ∀ instruction ∈ s.code, ∀ operand ∈ instruction.operands,
        (operand.anonymous first).anonymous second = operand.anonymous (second ∘ first) := by
      intro instruction hinstruction operand hoperand
      cases operand with
      | sequence body =>
        rw [Operand.anonymous, Operand.anonymous, Operand.anonymous,
          ih body (mem_nested hinstruction hoperand)]
      | nil | literal _ | call _ => simp only [Operand.anonymous, Function.comp]
    have hcode : (s.code.map (Instruction.anonymous first)).map (Instruction.anonymous second) =
        s.code.map (Instruction.anonymous (second ∘ first)) := by
      rw [List.map_map]
      refine List.map_congr_left fun instruction hinstruction => ?_
      simp only [Function.comp_apply, Instruction.anonymous_eq, List.map_map]
      exact congrArg _ (List.map_congr_left (hoperands instruction hinstruction))
    simp only [anonymous_eq, hcode, ParameterLayout.mapLiterals_mapLiterals]

theorem nested_anonymous (s : Sequence) :
    (s.anonymous change).nested = s.nested.map (anonymous change) := by
  simp only [nested, Instruction.nested, anonymous_eq, Instruction.anonymous_eq, List.flatMap_map,
    List.map_flatMap, List.filterMap_map, List.map_filterMap, Function.comp_def,
    Operand.sequence?_anonymous]

theorem unfold_anonymous (s : Sequence) :
    (s.anonymous change).unfold = s.unfold.map (anonymous change) := by
  induction s using nested_induction with
  | step s ih =>
    rw [unfold_eq_cons, unfold_eq_cons s, nested_anonymous, List.flatMap_map, List.map_cons,
      List.map_flatMap, List.flatMap_congr ih]

theorem ownLiterals_anonymous (s : Sequence) :
    (s.anonymous change).ownLiterals = s.ownLiterals.map change := by
  simp only [ownLiterals, anonymous_eq, Instruction.anonymous_eq, List.flatMap_map,
    List.map_append, List.map_flatMap, List.filterMap_map, List.map_filterMap, Function.comp_def,
    Operand.literal?_anonymous, ParameterLayout.literals_mapLiterals]

theorem literals_anonymous (s : Sequence) :
    (s.anonymous change).literals = s.literals.map change := by
  simp only [literals, unfold_anonymous, List.flatMap_map, List.map_flatMap,
    ownLiterals_anonymous]

end Sequence

/-! ## Equality by form -/

theorem Operand.equalLists_iff {operands others : List Operand} :
    equalLists operands others = true ↔
      List.Forall₂ (fun a b : Operand => a.equal b = true) operands others := by
  induction operands generalizing others with
  | nil => cases others <;> simp [equalLists]
  | cons operand rest ih => cases others <;> simp [equalLists, ih]

theorem Instruction.equalLists_iff {code others : List Instruction} :
    equalLists code others = true ↔
      List.Forall₂ (fun a b : Instruction => a.equal b = true) code others := by
  induction code generalizing others with
  | nil => cases others <;> simp [equalLists]
  | cons instruction rest ih => cases others <;> simp [equalLists, ih]

theorem Sequence.equal_iff {s t : Sequence} :
    s.equal t = true ↔
      s.label = t.label ∧ s.kind = t.kind ∧ s.path = t.path ∧
        List.Forall₂ (fun a b : Instruction => a.equal b = true) s.code t.code ∧
          (s.parameters == t.parameters) = true ∧ s.locals = t.locals := by
  rcases s with ⟨_, label, kind, path, code, parameters, locals⟩
  rcases t with ⟨_, otherLabel, otherKind, otherPath, otherCode, otherParameters, otherLocals⟩
  rw [equal]
  simp only [Bool.and_eq_true, beq_iff_eq, Instruction.equalLists_iff, and_assoc]

/-- Operands compare by form if the sequences among them do. -/
theorem Operand.comparesBy {operand : Operand}
    (h : ∀ body, operand = sequence body →
      ComparesBy (fun s t : Sequence => s.equal t = true) Sequence.NaNFree Sequence.unsigned
        body) :
    ComparesBy (fun a b : Operand => a.equal b = true)
      (fun a => ∀ literal ∈ a.literals, literal.isNaN = false) (anonymous Literal.unsigned)
      operand := by
  intro other
  cases operand with
  | sequence body =>
    cases other with
    | sequence otherBody =>
      simpa only [equal, literals, anonymous, sequence.injEq, Sequence.NaNFree, Sequence.unsigned]
        using h body rfl otherBody
    | nil | literal _ | call _ => simp [equal, anonymous]
  | literal value =>
    cases other with
    | literal otherValue =>
      simpa [equal, literals, anonymous] using value.comparesBy otherValue
    | nil | sequence _ | call _ => simp [equal, anonymous]
  | nil | call _ => cases other <;> simp [equal, literals, anonymous]

theorem Instruction.comparesBy {instruction : Instruction}
    (h : ∀ body ∈ instruction.nested,
      ComparesBy (fun s t : Sequence => s.equal t = true) Sequence.NaNFree Sequence.unsigned
        body) :
    ComparesBy (fun a b : Instruction => a.equal b = true)
      (fun a => ∀ operand ∈ a.operands, ∀ literal ∈ operand.literals, literal.isNaN = false)
      (anonymous Literal.unsigned) instruction := by
  intro other
  rcases instruction with ⟨opcode, operands⟩
  rcases other with ⟨otherOpcode, otherOperands⟩
  have hoperands : ∀ operand ∈ operands, _ := fun operand hoperand =>
    Operand.comparesBy fun body hbody => h body (mem_nested_iff.2 (hbody ▸ hoperand))
  simp only [equal, Bool.and_eq_true, beq_iff_eq, Operand.equalLists_iff,
    ComparesBy.forall₂ hoperands otherOperands, anonymous_eq, mk.injEq]
  tauto

namespace Sequence

theorem nanFree_iff {s : Sequence} :
    s.NaNFree ↔
      (∀ instruction ∈ s.code, ∀ operand ∈ instruction.operands, ∀ literal ∈ operand.literals,
        literal.isNaN = false) ∧
      ∀ literal ∈ s.parameters.literals, literal.isNaN = false := by
  simp only [NaNFree, mem_literals_iff]
  grind

/-- Two sequences are equal if and only if neither holds a NaN and they are the same but for
identities and the signs of zeros. -/
theorem comparesBy (s : Sequence) :
    ComparesBy (fun s t : Sequence => s.equal t = true) NaNFree unsigned s := by
  induction s using nested_induction with
  | step s ih =>
    intro t
    have hcode : ∀ instruction ∈ s.code, _ := fun instruction hinstruction =>
      Instruction.comparesBy fun body hbody =>
        ih body (List.mem_flatMap.2 ⟨instruction, hinstruction, hbody⟩)
    simp only [equal_iff, ComparesBy.forall₂ hcode t.code, s.parameters.comparesBy t.parameters,
      nanFree_iff, unsigned, anonymous_eq, mk.injEq]
    tauto

end Sequence

/-! ## What equal sequences share -/

theorem Operand.text_anonymous (operand : Operand) :
    (operand.anonymous fun literal => literal).text = operand.text := by
  cases operand with
  | sequence body =>
    rw [anonymous, Sequence.anonymous_eq]
    rfl
  | nil | literal _ | call _ => rw [anonymous]

theorem Instruction.text_anonymous (instruction : Instruction) :
    (instruction.anonymous fun literal => literal).text = instruction.text := by
  rcases instruction with ⟨opcode, operands⟩
  rw [anonymous_eq]
  cases operands with
  | nil => rfl
  | cons operand rest =>
    simp only [text, List.map_cons, List.map_map, Function.comp_def, Operand.text_anonymous]

namespace Sequence

theorem literals_content (s : Sequence) : s.content.literals = s.literals := by
  rw [content, literals_anonymous, List.map_id']

theorem unsigned_content (s : Sequence) : s.content.unsigned = s.unsigned :=
  anonymous_anonymous _ _ s

theorem content_eq_unsigned {s : Sequence} (h : s.ZeroFree) : s.content = s.unsigned :=
  anonymous_congr s fun literal hliteral =>
    (Literal.unsigned_of_not_isZero (h literal hliteral)).symm

theorem zeroFree_unsigned_iff {s : Sequence} : s.unsigned.ZeroFree ↔ s.ZeroFree := by
  simp only [ZeroFree, unsigned, literals_anonymous, List.forall_mem_map,
    Literal.isZero_unsigned]

theorem blockLines_content (s : Sequence) : s.content.blockLines = s.blockLines := by
  have hcode : s.content.codeLines = s.codeLines := by
    simp only [codeLines, content, anonymous_eq, List.zipIdx_map, List.map_map]
    refine List.map_congr_left fun entry _ => ?_
    rw [Function.comp_apply, Prod.map_fst, Prod.map_snd, id_eq, Instruction.text_anonymous]
  rw [blockLines, hcode, content, anonymous_eq]
  rfl

theorem listing_content (s : Sequence) : s.content.listing = s.listing := by
  have hblocks (s : Sequence) : (s.anonymous fun literal => literal).blockLines = s.blockLines :=
    s.blockLines_content
  rw [listing, content, unfold_anonymous, List.flatMap_map, listing]
  simp only [hblocks]

theorem signature_content (s : Sequence) : s.content.signature = s.signature := by
  rw [content, anonymous_eq, ParameterLayout.mapLiterals_id]
  rfl

theorem beq_iff {s t : Sequence} :
    (s == t) = true ↔ s.NaNFree ∧ t.NaNFree ∧ s.unsigned = t.unsigned :=
  s.comparesBy t

/-- Equality does not see which of the nested sequences are one object. -/
theorem beq_congr_content {s shared : Sequence} (h : shared.content = s.content) (t : Sequence) :
    (shared == t) = (s == t) := by
  have hnan : shared.NaNFree ↔ s.NaNFree := by
    rw [NaNFree, NaNFree, ← literals_content, h, literals_content]
  have hunsigned : shared.unsigned = s.unsigned := by
    rw [← unsigned_content, h, unsigned_content]
  rw [Bool.eq_iff_iff, beq_iff, beq_iff, hnan, hunsigned]

/-- What is equal to a sequence without zeros is without zeros, too, and says the same. -/
theorem content_eq_of_beq {s t : Sequence} (h : (s == t) = true) (hzero : s.ZeroFree) :
    s.content = t.content := by
  obtain ⟨-, -, hforms⟩ := beq_iff.1 h
  have hother : t.ZeroFree := zeroFree_unsigned_iff.1 (hforms ▸ zeroFree_unsigned_iff.2 hzero)
  rw [content_eq_unsigned hzero, hforms, content_eq_unsigned hother]

/-- Two sequences are equal if and only if neither holds a NaN and they are the same but for the
signs of zeros.  Equality is symmetric and transitive, it is reflexive on sequences without a NaN,
and it does not see which nested sequences are shared.  Sequences that are equal to one without
zeros have its listing and its signature. -/
theorem equality_by_form (s t : Sequence) :
    ((s == t) = true ↔ s.NaNFree ∧ t.NaNFree ∧ s.unsigned = t.unsigned) ∧
    (s == t) = (t == s) ∧
    (∀ u, (s == t) = true → (t == u) = true → (s == u) = true) ∧
    ((s == s) = true ↔ s.NaNFree) ∧
    (∀ shared, shared.content = s.content → (shared == t) = (s == t)) ∧
    ((s == t) = true → s.ZeroFree → s.listing = t.listing ∧ s.signature = t.signature) := by
  refine ⟨beq_iff, ?_, ?_, ?_, fun shared hshared => beq_congr_content hshared t, ?_⟩
  · rw [Bool.eq_iff_iff, beq_iff, beq_iff]
    tauto
  · intro u hst htu
    rw [beq_iff] at hst htu ⊢
    exact ⟨hst.1, htu.2.1, hst.2.2.trans htu.2.2⟩
  · rw [beq_iff]
    tauto
  · intro hst hzero
    have hcontent := content_eq_of_beq hst hzero
    rw [← s.listing_content, ← s.signature_content, hcontent]
    exact ⟨t.listing_content, t.signature_content⟩

/-- A method with a number as the default of its keyword and in each of its two blocks, which are
one object if their identities are the same. -/
def scaling (first second : Nat) (number : Binary64) : Sequence :=
  let block (identity : Nat) : Sequence :=
    { id := ⟨identity⟩, label := "block in scale", kind := .block, path := "scale.rb"
      code := [⟨.putObject, [.literal (.float number)]⟩, ⟨.leave, []⟩], parameters := {}
      locals := [] }
  { id := ⟨0⟩, label := "scale", kind := .method, path := "scale.rb"
    code := [⟨.putIseq, [.sequence (block first)]⟩, ⟨.putIseq, [.sequence (block second)]⟩,
      ⟨.leave, []⟩]
    parameters := { keywords := some [.optional "by" (.float number)] }, locals := ["by"] }

theorem equality_by_form_scaling :
    (scaling 1 1 ⟨0⟩ == scaling 2 3 ⟨0x8000000000000000⟩) = true ∧
    (scaling 1 1 ⟨0x7ff8000000000000⟩ == scaling 1 1 ⟨0x7ff8000000000000⟩) = false ∧
    (scaling 1 1 ⟨0x3ff0000000000000⟩ == scaling 2 3 ⟨0x3ff0000000000000⟩) = true ∧
    (scaling 1 1 ⟨0x3ff0000000000000⟩).listing = (scaling 2 3 ⟨0x3ff0000000000000⟩).listing ∧
    (scaling 1 1 ⟨0x3ff0000000000000⟩).signature =
      (scaling 2 3 ⟨0x3ff0000000000000⟩).signature := by
  have hnan : ¬ (scaling 1 1 ⟨0x7ff8000000000000⟩).NaNFree := by
    unfold NaNFree
    decide +kernel
  have hones : (scaling 1 1 ⟨0x3ff0000000000000⟩ == scaling 2 3 ⟨0x3ff0000000000000⟩) = true := by
    decide +kernel
  have hzero : (scaling 1 1 ⟨0x3ff0000000000000⟩).ZeroFree := by
    unfold ZeroFree
    decide +kernel
  obtain ⟨-, -, -, hself, -, -⟩ :=
    equality_by_form (scaling 1 1 ⟨0x7ff8000000000000⟩) (scaling 1 1 ⟨0x7ff8000000000000⟩)
  obtain ⟨-, -, -, -, -, hshown⟩ :=
    equality_by_form (scaling 1 1 ⟨0x3ff0000000000000⟩) (scaling 2 3 ⟨0x3ff0000000000000⟩)
  exact ⟨by decide +kernel, Bool.eq_false_iff.2 fun h => hnan (hself.1 h), hones,
    hshown hones hzero⟩

end Sequence

end ClassIndex
