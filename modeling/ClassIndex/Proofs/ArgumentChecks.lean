import ClassIndex.Proofs.Requests

/-!
# Arguments that processors refuse

`DeclarationKind.Faulty` says, for each declaration, which argument is at fault and what it should
have been.  Later arguments are not looked at once there is a fault, and a call on something that is
not a class is never at fault.

The check of the arguments fails on faulty ones and on no others (`Faulty.request_eq`,
`exists_faulty_or_request`), and it comes before anything is asked of the model.  So a processor
that fails leaves the model as it was, and this holds of all processors that are registered
(`processors_check_first`).
-/

namespace ClassIndex

/-! ## What arguments have to be -/

namespace Value

/-- A symbol or a string. -/
inductive IsName : Value → Prop
  | symbol (name : String) : IsName (.literal (.symbol name))
  | string (text : String) : IsName (.literal (.string text))

inductive IsClass : Value → Prop
  | classRef (id : ClassId) : IsClass (.classRef id)

variable {value : Value}

theorem name?_eq_none_iff : value.name? = none ↔ ¬ value.IsName := by
  constructor
  · rintro h ⟨⟩ <;> simp [name?, Literal.name?] at h
  · intro h
    cases value with
    | literal given =>
      cases given with
      | symbol name => exact absurd (.symbol name) h
      | string text => exact absurd (.string text) h
      | integer _ | float _ | bool _ => rfl
    | nil | classRef _ | methodRef _ | sequence _ => rfl

theorem class?_eq_none_iff : value.class? = none ↔ ¬ value.IsClass := by
  constructor
  · rintro h ⟨⟩
    simp [class?] at h
  · intro h
    cases value with
    | classRef id => exact absurd (.classRef id) h
    | nil | literal _ | methodRef _ | sequence _ => rfl

theorem IsClass.exists_class? (h : value.IsClass) : ∃ id, value.class? = some id := by
  cases h with
  | classRef id => exact ⟨id, rfl⟩

end Value

namespace Arguments

variable {args : Arguments} {index : Nat}

theorem exists_name (h : (args.get index).IsName) : ∃ name, args.name index = .ok name := by
  have hsome : (args.get index).name? ≠ none := fun hnone => Value.name?_eq_none_iff.1 hnone h
  obtain ⟨given, hgiven⟩ := Option.ne_none_iff_exists'.1 hsome
  exact ⟨given, by rw [name, hgiven, require]⟩

theorem name_of_not_isName (h : ¬ (args.get index).IsName) :
    args.name index = .error (args.invalid index "a name") := by
  rw [name, Value.name?_eq_none_iff.2 h, require]

theorem exists_classOrNil (h : (args.get index).IsClass ∨ args.get index = .nil) :
    ∃ id, args.classOrNil index = .ok id := by
  unfold classOrNil
  rcases h with h | h
  · generalize args.get index = value at h
    cases h with
    | classRef id => exact ⟨some id, rfl⟩
  · exact ⟨none, by rw [h]⟩

theorem classOrNil_of_not (hclass : ¬ (args.get index).IsClass) (hnil : args.get index ≠ .nil) :
    args.classOrNil index = .error (args.invalid index "a class or nil") := by
  unfold classOrNil
  split
  · exact absurd ‹_› hnil
  · rename_i id hid
    exact absurd (hid ▸ .classRef id) hclass
  · rfl

theorem flags_of_integer {given : Int64} (h : args.get index = .literal (.integer given)) :
    args.flags index = args.require index "a 32-bit flag word" (word? given) := by
  have hinteger : args.integer index = .ok given := by
    rw [integer, h]
    rfl
  rw [flags, hinteger]
  rfl

theorem flags_of_not_integer (h : ∀ given, args.get index ≠ .literal (.integer given)) :
    args.flags index = .error (args.invalid index "an integer") := by
  have hnone : (args.get index).integer? = none := by
    rcases hvalue : args.get index with _ | given | _ | _ | _
    · rfl
    · cases given with
      | integer given => exact absurd hvalue (h given)
      | symbol _ | string _ | float _ | bool _ => rfl
    all_goals rfl
  rw [flags, integer, hnone]
  rfl

end Arguments

namespace DeclarationKind

/-- Declarations that name a method of a class. -/
def OfMethod : DeclarationKind → Prop
  | defineMethod _ | findMethod _ => True
  | defineClass | getConstant | mixIn _ => False

/-- Declarations that are made by a call on a class. -/
def OnReceiver : DeclarationKind → Prop
  | defineMethod _ | findMethod _ | mixIn _ => True
  | defineClass | getConstant => False

/-- The argument at `index` is the first one that is not as a declaration needs it. -/
inductive Faulty (args : Arguments) : DeclarationKind → Nat → String → Prop
  | className (h : ¬ (args.get 0).IsName) : Faulty args .defineClass 0 "a name"
  | superclass (hname : (args.get 0).IsName) (hclass : ¬ (args.get 2).IsClass)
      (hnil : args.get 2 ≠ .nil) : Faulty args .defineClass 2 "a class or nil"
  | notInteger (hname : (args.get 0).IsName)
      (hsuperclass : (args.get 2).IsClass ∨ args.get 2 = .nil)
      (h : ∀ given, args.get 4 ≠ .literal (.integer given)) :
      Faulty args .defineClass 4 "an integer"
  | outOfRange {given : Int64} (hname : (args.get 0).IsName)
      (hsuperclass : (args.get 2).IsClass ∨ args.get 2 = .nil)
      (hgiven : args.get 4 = .literal (.integer given))
      (h : given.toInt < 0 ∨ UInt32.size ≤ given.toInt) :
      Faulty args .defineClass 4 "a 32-bit flag word"
  | constant (h : ¬ (args.get 0).IsName) : Faulty args .getConstant 0 "a name"
  | methodName {kind : DeclarationKind} (hkind : kind.OfMethod) (hclass : (args.get 0).IsClass)
      (h : ¬ (args.get 1).IsName) : Faulty args kind 1 "a name"

/-! ## The check of the arguments -/

variable {kind : DeclarationKind} {args : Arguments}

theorem request_of_not_isClass (hkind : kind.OnReceiver) (h : ¬ (args.get 0).IsClass) :
    kind.request args = .ok .nothing := by
  have hnone : (args.get 0).class? = none := Value.class?_eq_none_iff.2 h
  cases kind with
  | defineClass | getConstant => exact hkind.elim
  | defineMethod _ | findMethod _ | mixIn _ =>
    rw [request, hnone]
    rfl

/-- The check notices the fault. -/
theorem Faulty.request_eq {index : Nat} {expected : String} (h : kind.Faulty args index expected) :
    kind.request args = .error (args.invalid index expected) := by
  cases h with
  | className h | constant h =>
    rw [request, Arguments.name_of_not_isName h]
    rfl
  | superclass hname hclass hnil =>
    obtain ⟨name, hname⟩ := Arguments.exists_name hname
    rw [request, hname, Arguments.classOrNil_of_not hclass hnil]
    rfl
  | notInteger hname hsuperclass h =>
    obtain ⟨name, hname⟩ := Arguments.exists_name hname
    obtain ⟨superclass, hsuperclass⟩ := Arguments.exists_classOrNil hsuperclass
    rw [request, hname, hsuperclass, Arguments.flags_of_not_integer h]
    rfl
  | @outOfRange given hname hsuperclass hgiven h =>
    obtain ⟨name, hname⟩ := Arguments.exists_name hname
    obtain ⟨superclass, hsuperclass⟩ := Arguments.exists_classOrNil hsuperclass
    have hword : Arguments.word? given = none := if_neg (by omega)
    rw [request, hname, hsuperclass, Arguments.flags_of_integer hgiven, hword]
    rfl
  | methodName hkind hclass h =>
    obtain ⟨id, hid⟩ := hclass.exists_class?
    cases kind with
    | defineClass | getConstant | mixIn _ => exact hkind.elim
    | defineMethod _ | findMethod _ =>
      rw [request, hid]
      dsimp only
      rw [Arguments.name_of_not_isName h]
      rfl

/-- Without a fault there is nothing that the check refuses. -/
theorem exists_faulty_or_request (kind : DeclarationKind) (args : Arguments) :
    (∃ index expected, kind.Faulty args index expected) ∨
      ∃ request, kind.request args = .ok request := by
  cases kind with
  | defineClass =>
    -- The checks in the order in which they are made: each that fails is a fault by itself.
    by_cases hname : (args.get 0).IsName
    case neg => exact Or.inl ⟨0, _, .className hname⟩
    by_cases hsuperclass : (args.get 2).IsClass ∨ args.get 2 = .nil
    case neg =>
      obtain ⟨hclass, hnil⟩ := not_or.1 hsuperclass
      exact Or.inl ⟨2, _, .superclass hname hclass hnil⟩
    by_cases hinteger : ∃ given, args.get 4 = .literal (.integer given)
    case neg => exact Or.inl ⟨4, _, .notInteger hname hsuperclass (not_exists.1 hinteger)⟩
    obtain ⟨given, hgiven⟩ := hinteger
    by_cases hrange : 0 ≤ given.toInt ∧ given.toInt < UInt32.size
    case neg => exact Or.inl ⟨4, _, .outOfRange hname hsuperclass hgiven (by omega)⟩
    right
    obtain ⟨name, hname⟩ := Arguments.exists_name hname
    obtain ⟨superclass, hsuperclass⟩ := Arguments.exists_classOrNil hsuperclass
    have hword : Arguments.word? given = some _ := if_pos hrange
    rw [request, hname, hsuperclass, Arguments.flags_of_integer hgiven, hword]
    simp only [Arguments.require, bind, Except.bind, pure, Except.pure]
    split <;> exact ⟨_, rfl⟩
  | getConstant =>
    by_cases hname : (args.get 0).IsName
    case neg => exact Or.inl ⟨0, _, .constant hname⟩
    obtain ⟨name, hname⟩ := Arguments.exists_name hname
    right
    rw [request, hname]
    exact ⟨_, rfl⟩
  | defineMethod _ | findMethod _ =>
    by_cases hclass : (args.get 0).IsClass
    case neg => exact Or.inr ⟨_, request_of_not_isClass trivial hclass⟩
    by_cases hname : (args.get 1).IsName
    case neg => exact Or.inl ⟨1, _, .methodName trivial hclass hname⟩
    obtain ⟨name, hname⟩ := Arguments.exists_name hname
    obtain ⟨id, hid⟩ := hclass.exists_class?
    right
    rw [request, hid]
    dsimp only
    rw [hname]
    exact ⟨_, rfl⟩
  | mixIn _ =>
    right
    rw [request]
    split <;> exact ⟨_, rfl⟩

theorem request_eq_error_iff {error : RunError} :
    kind.request args = .error error ↔
      ∃ index expected, kind.Faulty args index expected ∧ error = args.invalid index expected := by
  constructor
  · intro herror
    rcases kind.exists_faulty_or_request args with ⟨index, expected, hfaulty⟩ | ⟨request, hok⟩
    · rw [hfaulty.request_eq] at herror
      exact ⟨index, expected, hfaulty, (Except.error.inj herror).symm⟩
    · simp [hok] at herror
  · rintro ⟨index, expected, hfaulty, rfl⟩
    exact hfaulty.request_eq

/-! ## Processors -/

section Processors

variable {host : Host Model} {error : RunError}

/-- A processor fails if and only if the check does. -/
theorem processor_eq_error_iff :
    ((kind.processor args).run.run host).1 = .error error ↔ kind.request args = .error error := by
  have hresults := congrArg Prod.fst (kind.run_processor args host)
  dsimp only at hresults
  rw [hresults]
  cases kind.request args <;> simp [Request.answer]

/-- After a failed check the model is not asked for anything. -/
theorem state_of_request_error (h : kind.request args = .error error) :
    ((kind.processor args).run.run host).2.state = host.state := by
  have hresults := congrArg Prod.snd (kind.run_processor args host)
  rwa [h] at hresults

theorem processor_of_request_nothing (h : kind.request args = .ok .nothing) :
    ((kind.processor args).run.run host).1 = .ok .nil ∧
      ((kind.processor args).run.run host).2.state = host.state := by
  have hresults := kind.run_processor args host
  rw [h] at hresults
  exact Prod.mk.inj hresults

end Processors

end DeclarationKind

/-! ## The registered processors -/

namespace Declarations

theorem mem_entriesAt_processors_iff {opcode : Opcode} {entry : Registration Model} :
    entry ∈ processors.entriesAt opcode ↔
      ∃ kind : DeclarationKind, opcode ∈ kind.opcodes ∧
        entry = ⟨kind.qualifiers, kind.processor⟩ := by
  rw [← mem_all_iff, ← Array.mem_toList_iff, represents_processors.entriesAt,
    Roster.mem_entriesOf_iff]
  constructor
  · rintro ⟨call, hcall, rfl, rfl⟩
    exact RegistrationCall.mem_map_ofEntry_iff.1 hcall
  · exact fun hall => ⟨_, List.mem_map_of_mem hall, rfl, rfl⟩

/-- Every registered processor fails just on faulty arguments, with an error for the first of them,
and leaves the model as it was.  On something that is not a class, calls do nothing. -/
theorem processors_check_first :
    (∀ opcode entry, entry ∈ processors.entriesAt opcode ↔
      ∃ kind : DeclarationKind, opcode ∈ kind.opcodes ∧
        entry = ⟨kind.qualifiers, kind.processor⟩) ∧
    ∀ (kind : DeclarationKind) (args : Arguments) (host : Host Model),
      let ending := (kind.processor args).run.run host
      (∀ error, ending.1 = .error error ↔
        ∃ index expected, kind.Faulty args index expected ∧
          error = .invalidArgument args.processor index expected (args.get index).typeName) ∧
      (∀ error, ending.1 = .error error → ending.2.state = host.state) ∧
      (kind.OnReceiver → ¬ (args.get 0).IsClass →
        ending.1 = .ok .nil ∧ ending.2.state = host.state) := by
  refine ⟨fun _ _ => mem_entriesAt_processors_iff, fun kind args host => ?_⟩
  refine ⟨fun error => ?_, fun error herror => ?_, fun hkind hclass => ?_⟩
  · exact DeclarationKind.processor_eq_error_iff.trans DeclarationKind.request_eq_error_iff
  · exact DeclarationKind.state_of_request_error (DeclarationKind.processor_eq_error_iff.1 herror)
  · exact DeclarationKind.processor_of_request_nothing
      (DeclarationKind.request_of_not_isClass hkind hclass)

/-- A flag word of 33 bits, with the bits of a singleton class, on a class that has none. -/
theorem processors_check_first_wide_flags :
    let model := (({} : Model).define "Greeter" (.ordinary "Greeter" none none)).2
    let args : Arguments := ⟨"defineclass", [.literal (.symbol "singletonclass"), .nil, .nil,
      .classRef ⟨0⟩, .literal (.integer 4294967297)]⟩
    let ending := (defineClass args).run.run { state := model }
    ending.1 = .error (.invalidArgument "defineclass" 4 "a 32-bit flag word" "literal") ∧
      ending.2.state = model := by
  intro model args ending
  obtain ⟨hfails, hstate, -⟩ := processors_check_first.2 .defineClass args { state := model }
  have herror := (hfails _).2 ⟨4, _, .outOfRange (.symbol "singletonclass") (Or.inr rfl) rfl
    (Or.inr (by decide)), rfl⟩
  exact ⟨herror, hstate _ herror⟩

end Declarations

end ClassIndex
