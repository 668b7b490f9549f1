import ClassIndex.Proofs.Representation

/-!
# Faithfulness of the index

Enacting declarations keeps model and survey together (`represents_enactAll`), by induction on the
nesting of the declarations.  With the simulation of the compiled code this gives the end-to-end
theorem `index_program_represents`: the model that is left when a program was indexed holds what the
declarations of the program say, class by class, and nothing else.  It asks of every method body
that the positions of its optional parameters are machine words (`ParameterLayout.FitsWords`), since
beyond them the position of a parameter would overflow.
-/

namespace ClassIndex

theorem represents_empty : Represents (fun _ => none) {} {} where
  nodup := List.nodup_nil
  order := .nil
  find _ := Std.TreeMap.getElem?_emptyc
  known _ := ⟨nofun, nofun⟩
  base _ _ := rfl
  injective _ _ _ h _ := nomatch h
  bound _ _ h := nomatch h
  covers _ h := absurd h (Nat.not_lt_zero _)
  absent _ _ := rfl
  describes _ _ h := nomatch h

namespace Declaration

section Forms

variable {ids : Identities} {known : Survey} {model : Model}

theorem represents_resolve (h : Represents ids known model) (name : String) :
    ∃ ids', Represents ids' (known.refer name) (resolve name model).2 ∧ ids.Extends ids' ∧
      ids' (.named name) = some (resolve name model).1 :=
  h.defineIn name .ordinary rfl .none .none

theorem represents_resolve? (h : Represents ids known model) (superclass : Option String) :
    ∃ ids', Represents ids' (superclass.elim known (known.refer ·))
        (resolve? superclass model).2 ∧
      ids.Extends ids' ∧
      ids'.Agree (superclass.map .named) (resolve? superclass model).1 := by
  cases superclass with
  | none => exact ⟨ids, h, .refl ids, .none⟩
  | some name =>
    obtain ⟨ids', hrefer, hextends, hname⟩ := represents_resolve h name
    exact ⟨ids', hrefer, hextends, .some hname⟩

end Forms

mutual

/-- A declaration does the same to the model as to the survey. -/
theorem represents_enact {ids : Identities} {known : Survey} {model : Model}
    {scope : Option ClassPath} {id : Option ClassId} (declaration : Declaration)
    (h : Represents ids known model) (hscope : ids.Agree scope id) :
    ∃ ids', Represents ids' (declaration.survey scope known) (declaration.enact id model) ∧
      ids.Extends ids' := by
  match declaration with
  | classDef name superclass body =>
    -- The superclass is mentioned first, so it stands before the class in the catalogue.
    obtain ⟨ids₁, h₁, hextends₁, hparent⟩ := represents_resolve? h superclass
    have hscope₁ := hscope.mono hextends₁
    obtain ⟨ids₂, h₂, hextends₂, hname⟩ := h₁.defineIn name .ordinary rfl hparent hscope₁
    obtain ⟨ids₃, h₃, hextends₃⟩ := represents_enactAll body h₂ (.some hname)
    exact ⟨ids₃, h₃, hextends₁.trans (hextends₂.trans hextends₃)⟩
  | moduleDef name body =>
    have hparent : ids.Agree ((none : Option String).map .named) none := .none
    obtain ⟨ids₁, h₁, hextends₁, hname⟩ := h.defineIn name .modular rfl hparent hscope
    obtain ⟨ids₂, h₂, hextends₂⟩ := represents_enactAll body h₁ (.some hname)
    exact ⟨ids₂, h₂, hextends₁.trans hextends₂⟩
  | singletonDef body =>
    cases hscope with
    | none => exact represents_enactAll body h .none
    | some hpath =>
      obtain ⟨ids₁, h₁, hextends₁, hsingleton⟩ := h.companion hpath
      obtain ⟨ids₂, h₂, hextends₂⟩ := represents_enactAll body h₁ (.some hsingleton)
      exact ⟨ids₂, h₂, hextends₁.trans hextends₂⟩
  | methodDef side name locals parameters =>
    have hsignature : (methodBody name locals parameters).signature = parameters.assign locals :=
      Sequence.signature_eq_assign _
    cases hscope with
    | none => exact ⟨ids, h, .refl ids⟩
    | some hpath =>
      show ∃ ids', Represents ids' _ (model.defineMethod side _ name _).2 ∧ _
      rw [hsignature]
      exact h.defineMethod side name _ hpath
  | mixinOf kind source =>
    obtain ⟨ids₁, h₁, hextends₁, hsource⟩ := represents_resolve h source
    cases hscope with
    | none => exact ⟨ids₁, h₁, hextends₁⟩
    | some hpath => exact ⟨ids₁, h₁.mixIn kind (hextends₁ _ _ hpath) hsource, hextends₁⟩

theorem represents_enactAll {ids : Identities} {known : Survey} {model : Model}
    {scope : Option ClassPath} {id : Option ClassId} (declarations : List Declaration)
    (h : Represents ids known model) (hscope : ids.Agree scope id) :
    ∃ ids', Represents ids' (surveyAll scope declarations known)
      (enactAll id declarations model) ∧ ids.Extends ids' := by
  match declarations with
  | [] => exact ⟨ids, h, .refl ids⟩
  | declaration :: rest =>
    obtain ⟨ids₁, h₁, hextends₁⟩ := represents_enact declaration h hscope
    have hscope₁ := hscope.mono hextends₁
    obtain ⟨ids₂, h₂, hextends₂⟩ := represents_enactAll rest h₁ hscope₁
    exact ⟨ids₂, h₂, hextends₁.trans hextends₂⟩

end

mutual

/-- The bodies of the methods that a declaration defines, at any depth. -/
def methodBodies : Declaration → List Sequence
  | classDef _ _ body | moduleDef _ body | singletonDef body => methodBodiesAll body
  | methodDef _ name locals parameters => [methodBody name locals parameters]
  | mixinOf _ _ => []

def methodBodiesAll : List Declaration → List Sequence
  | [] => []
  | declaration :: rest => declaration.methodBodies ++ methodBodiesAll rest

end

/-- Indexing a program into an empty model succeeds with nil, and leaves the model that the
declarations make directly. That model holds their survey: the classes in order of first mention,
each as its first mention says, with the members that are declared in it. The positions of all
parameters are machine words, so that reading them in machine words comes to the same. -/
theorem index_program_represents (declarations : List Declaration) {levels : Nat}
    (hlevels : depthAll declarations < levels)
    (hwords : ∀ body ∈ methodBodiesAll declarations, body.parameters.FitsWords) :
    ∃ after, (Indexing.index levels (program declarations)).Ends
        (Indexing.start .nil { state := {} }) (.ok .nil) after ∧
      after.host.state = enactAll none declarations {} ∧
      Represents after.host.state.locate (surveyAll none declarations {}) after.host.state ∧
      ∀ body ∈ methodBodiesAll declarations,
        body.wordOptionalParameters = body.optionalParameters := by
  obtain ⟨after, hends, hstate⟩ := index_program declarations hlevels
  obtain ⟨ids, hrepresents, -⟩ := represents_enactAll declarations represents_empty .none
  rw [← hstate] at hrepresents
  refine ⟨after, hends, hstate, ?_, fun body hbody =>
    Sequence.wordOptionalParameters_eq (hwords body hbody)⟩
  rw [← hrepresents.eq_locate]
  exact hrepresents

/-- A class in a module that is opened twice, with methods of every side, a singleton class and a
mixin. -/
def nested : List Declaration :=
  [.moduleDef "Shop"
    [.classDef "Cart" (some "Base")
      [.methodDef .instanceSide "add" ["item"] { lead := some 1 },
        .mixinOf .included "Enumerable",
        .methodDef .classSide "create" [] {},
        .singletonDef [.methodDef .instanceSide "load" [] {}]]],
    .moduleDef "Shop"
      [.classDef "Cart" none
        [.methodDef .instanceSide "add" ["item", "count"]
          { lead := some 1, defaults := some [.integer 1] }]]]

/-- The second definition of `add` counts, and the class keeps its first superclass. -/
theorem index_program_represents_nested :
    ∃ after, (Indexing.index 5 (program nested)).Ends (Indexing.start .nil { state := {} })
        (.ok .nil) after ∧
      Represents after.host.state.locate (surveyAll none nested {}) after.host.state ∧
      (surveyAll none nested {}).names = ["Shop", "Base", "Shop::Cart", "Enumerable"] ∧
      ((surveyAll none nested {}).heading "Shop::Cart").superclass = some "Base" ∧
      ((surveyAll none nested {}).members (.named "Shop::Cart")).map (·.instanceMethods) =
        some [("add", [.required "item", .optional "count" (.integer 1)])] := by
  have hlevels : depthAll nested < 5 := by decide
  have hwords : ∀ body ∈ methodBodiesAll nested, body.parameters.FitsWords := by decide
  obtain ⟨after, hends, -, hrepresents, -⟩ := index_program_represents nested hlevels hwords
  exact ⟨after, hends, hrepresents, by decide, by decide, rfl⟩

end Declaration

end ClassIndex
