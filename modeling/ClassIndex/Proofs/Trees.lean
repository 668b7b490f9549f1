import ClassIndex.Code.Sequence
import Mathlib.Data.List.Basic

/-!
# Sequences as trees

The sequences that stand in the operands of a sequence are its children, `Sequence.nested`.  What is
unfolded from a sequence is the sequence itself, followed by what is unfolded from each of its
children in order (`Sequence.unfold_eq_cons`), and what holds of a sequence whenever it holds of its
children holds of every sequence (`Sequence.nested_induction`).
-/

namespace ClassIndex

theorem Operand.unfoldList_eq_flatMap (operands : List Operand) :
    unfoldList operands = operands.flatMap unfold := by
  induction operands with
  | nil => rw [unfoldList, List.flatMap_nil]
  | cons operand rest ih => rw [unfoldList, ih, List.flatMap_cons]

theorem Operand.unfold_eq_flatMap (operand : Operand) :
    operand.unfold = operand.sequence?.toList.flatMap Sequence.unfold := by
  cases operand with
  | sequence body => rw [unfold, sequence?, Option.toList_some, List.flatMap_singleton]
  | nil | literal _ | call _ =>
    rw [unfold]
    · rfl
    · nofun

namespace Instruction

/-- The sequences among the operands of an instruction. -/
def nested (instruction : Instruction) : List Sequence :=
  instruction.operands.filterMap Operand.sequence?

theorem unfold_eq_flatMap (instruction : Instruction) :
    instruction.unfold = instruction.nested.flatMap Sequence.unfold := by
  rcases instruction with ⟨opcode, operands⟩
  rw [unfold, Operand.unfoldList_eq_flatMap, nested, List.filterMap_eq_flatMap_toList,
    List.flatMap_assoc]
  exact List.flatMap_congr fun operand _ => operand.unfold_eq_flatMap

theorem unfoldList_eq_flatMap (code : List Instruction) :
    unfoldList code = code.flatMap unfold := by
  induction code with
  | nil => rw [unfoldList, List.flatMap_nil]
  | cons instruction rest ih => rw [unfoldList, ih, List.flatMap_cons]

theorem mem_nested_iff {instruction : Instruction} {body : Sequence} :
    body ∈ instruction.nested ↔ .sequence body ∈ instruction.operands := by
  rw [nested, List.mem_filterMap]
  constructor
  · rintro ⟨operand, hoperand, hbody⟩
    cases operand with
    | sequence other =>
      cases hbody
      exact hoperand
    | nil | literal _ | call _ => cases hbody
  · exact fun hoperand => ⟨_, hoperand, rfl⟩

end Instruction

namespace Sequence

/-- The sequences among the operands of the instructions, in order. -/
def nested (s : Sequence) : List Sequence :=
  s.code.flatMap Instruction.nested

/-- A sequence comes before its children, and what is in one child before what is in the next. -/
theorem unfold_eq_cons (s : Sequence) : s.unfold = s :: s.nested.flatMap unfold := by
  rcases s with ⟨id, label, kind, path, code, parameters, locals⟩
  rw [unfold, Instruction.unfoldList_eq_flatMap, nested, List.flatMap_assoc]
  exact congrArg _ (List.flatMap_congr fun instruction _ => instruction.unfold_eq_flatMap)

theorem mem_nested {s body : Sequence} {instruction : Instruction}
    (hinstruction : instruction ∈ s.code) (hbody : .sequence body ∈ instruction.operands) :
    body ∈ s.nested :=
  List.mem_flatMap.2 ⟨instruction, hinstruction, Instruction.mem_nested_iff.2 hbody⟩

theorem length_unfold_lt_of_nested {s body : Sequence} (h : body ∈ s.nested) :
    body.unfold.length < s.unfold.length := by
  obtain ⟨before, behind, hnested⟩ := List.append_of_mem h
  rw [s.unfold_eq_cons, hnested, List.flatMap_append, List.flatMap_cons]
  simp only [List.length_cons, List.length_append]
  omega

/-- Induction on the children of a sequence. -/
@[elab_as_elim]
theorem nested_induction {motive : Sequence → Prop}
    (step : ∀ s, (∀ body ∈ s.nested, motive body) → motive s) (s : Sequence) : motive s :=
  step s fun body hbody =>
    have := length_unfold_lt_of_nested hbody
    nested_induction step body
termination_by s.unfold.length

end Sequence

end ClassIndex
