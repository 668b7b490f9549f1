import ClassIndex.Proofs.Growth
import ClassIndex.Proofs.Sessions
import ClassIndex.Proofs.Upkeep

/-!
# Invariants of indexers

Some properties of a model are kept only as long as the indexers hold the right values: a class that
is not in the model must not be reopened.  Such an invariant has two parts, a property `Good` of the
model and a property `Fits` of the values of a machine, which may refer to the model.
`Declarations.Keeps` is what requests have to do about them.  The declarations then preserve the
invariant (`Keeps.preserves`), and so does every run of an indexer, whatever comes of it
(`Preserves.index`).
-/

namespace ClassIndex

open Declarations (processors)

variable {Good : Model → Prop} {Fits : Model → Value → Prop}

/-- No request breaks the invariant.  What is neither a class nor a method always fits. -/
structure Declarations.Keeps (Good : Model → Prop) (Fits : Model → Value → Prop) : Prop where
  plain : ∀ {model : Model} {value : Value}, value.IsPlain → Fits model value
  good : ∀ {kind : DeclarationKind} {args : Arguments} {request : Request} {model : Model},
    kind.request args = .ok request → Good model → (∀ index, Fits model (args.get index)) →
      Good (request.fulfil model).2
  answer : ∀ {kind : DeclarationKind} {args : Arguments} {request : Request} {model : Model},
    kind.request args = .ok request → Good model → (∀ index, Fits model (args.get index)) →
      Fits (request.fulfil model).2 (request.fulfil model).1
  mono : ∀ {kind : DeclarationKind} {args : Arguments} {request : Request} {model : Model},
    kind.request args = .ok request → Good model → (∀ index, Fits model (args.get index)) →
      ∀ {value : Value}, Fits model value → Fits (request.fulfil model).2 value

namespace Declarations.Keeps

theorem nil (keeps : Keeps Good Fits) (model : Model) : Fits model .nil :=
  keeps.plain ⟨rfl, rfl⟩

theorem get (keeps : Keeps Good Fits) {model : Model} {values : List Value}
    (hvalues : ∀ value ∈ values, Fits model value) (processor : String) (index : Nat) :
    Fits model (Arguments.get ⟨processor, values⟩ index) := by
  unfold Arguments.get
  dsimp only
  rcases hvalue : values[index]? with _ | value
  · exact keeps.nil model
  · exact hvalues value (List.mem_of_getElem? hvalue)

/-- Whatever comes of a declaration, the model is good, its answer fits, and so does what fitted
before. -/
theorem dispatch (keeps : Keeps Good Fits) {opcode : Opcode} {qualifier : Option String}
    {values : List Value} {host after : Host Model} {outcome : Except RunError Value}
    (hgood : Good host.state) (hvalues : ∀ value ∈ values, Fits host.state value)
    (hrun : (processors.dispatch opcode qualifier values).run.run host = (outcome, after)) :
    Good after.state ∧ (∀ value, outcome = .ok value → Fits after.state value) ∧
      ∀ value, Fits host.state value → Fits after.state value := by
  obtain ⟨check, hcheck, hresults⟩ := run_dispatch opcode qualifier
  have hresult := hresults values host
  rw [ActionM.Results, hrun, Prod.mk.injEq] at hresult
  obtain ⟨rfl, hstate⟩ := hresult
  rw [hstate]
  rcases hrequest : check values with error | request
  · refine ⟨hgood, fun value hvalue => ?_, fun _ hvalue => hvalue⟩
    cases hvalue
  · rcases hcheck with hnothing | ⟨kind, hkind⟩
    · rw [hnothing] at hrequest
      cases hrequest
      refine ⟨hgood, fun value hvalue => ?_, fun _ hvalue => hvalue⟩
      cases hvalue
      exact keeps.nil host.state
    · rw [hkind] at hrequest
      have hargs := keeps.get hvalues opcode.name
      refine ⟨keeps.good hrequest hgood hargs, fun value hvalue => ?_, fun _ hvalue =>
        keeps.mono hrequest hgood hargs hvalue⟩
      cases hvalue
      exact keeps.answer hrequest hgood hargs

end Declarations.Keeps

theorem Declarations.Keeps.preserves (keeps : Keeps Good Fits) :
    processors.Preserves (fun host => Good host.state) Fits where
  plain := keeps.plain
  report _ hgood := hgood
  dispatch _ := keeps.dispatch

/-- An indexer upholds the invariant through every run, also through one that fails; and the values
that others hold fit as they did. -/
theorem Processors.Preserves.index {Good : Host Model → Prop}
    (preserves : processors.Preserves Good Fits) {levels : Nat} {body : Sequence}
    {machine after : Machine Model} {result : Except RunError Value}
    (h : machine.Upholds Good Fits)
    (hends : (Indexing.index levels body).Ends machine result after) :
    Machine.Upheld Good Fits machine after :=
  preserves.runInFrame levels _ _ _ _ _ h h.memory.alike.root.2 (Indexing.ends_index_iff.1 hends)

end ClassIndex
