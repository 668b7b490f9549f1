import ClassIndex.Proofs.Steps

/-!
# The stack discipline of code

Whether code keeps to its own values can be read off it.  `Instruction.balanced` follows the number
of values that a body has pushed through its code: every instruction has to be well-formed and to
find the values that it takes, and exactly one value has to be there at the first `leave` or at the
end.  A sequence is `WellFormed` if its code is balanced and so is that of every body in it that can
be run, at any depth.  What follows the first `leave` does not count.
-/

namespace ClassIndex

namespace Command

/-- The bodies that a command brings along. -/
def bodies : Command → List Sequence
  | push (.sequence body) => [body]
  | defineClass _ body _ => [body]
  | defineFromBlock _ (some block) => [block]
  | _ => []

end Command

namespace Instruction

/-- The bodies that the commands up to the first `leave` bring along. -/
def bodies : List Instruction → List Sequence
  | [] => []
  | instruction :: rest =>
    match instruction.command? with
    | none | some (.error _) => bodies rest
    | some (.ok command) =>
      match Machine.flowAfter command with
      | .leave => []
      | .next => command.bodies ++ bodies rest

/-- Whether code that starts with `height` values of its own finds enough of them at every
instruction and ends with exactly one. -/
def balanced : Nat → List Instruction → Bool
  | height, [] => height == 1
  | height, instruction :: rest =>
    match instruction.command? with
    | none => balanced height rest
    | some (.error _) => false
    | some (.ok command) =>
      match Machine.flowAfter command with
      | .leave => height == 1
      | .next =>
        decide (command.takes ≤ height) &&
          balanced (height - command.takes + command.leaves) rest

end Instruction

namespace Sequence

/-- The bodies that a sequence may run. -/
def bodies (s : Sequence) : List Sequence :=
  Instruction.bodies s.code

/-- The second sequence is the first one or a body at some depth in it. -/
inductive Contains : Sequence → Sequence → Prop
  | self {s : Sequence} : Contains s s
  | body {s inner deep : Sequence} (hinner : inner ∈ s.bodies) (hdeep : Contains inner deep) :
      Contains s deep

/-- The sequence and every body in it keep the stack discipline. -/
def WellFormed (s : Sequence) : Prop :=
  ∀ inner, s.Contains inner → Instruction.balanced 0 inner.code

theorem WellFormed.body {s inner : Sequence} (h : s.WellFormed) (hinner : inner ∈ s.bodies) :
    inner.WellFormed :=
  fun deep hdeep => h deep (.body hinner hdeep)

/-- Well-formed sequences have balanced code and well-formed bodies. -/
theorem wellFormed_iff {s : Sequence} :
    s.WellFormed ↔ Instruction.balanced 0 s.code ∧ ∀ inner ∈ s.bodies, inner.WellFormed := by
  constructor
  · exact fun h => ⟨h s .self, fun inner hinner => h.body hinner⟩
  · rintro ⟨hcode, hbodies⟩ inner hcontains
    cases hcontains with
    | self => exact hcode
    | body hinner hdeep => exact hbodies _ hinner inner hdeep

end Sequence

/-! ## Bodies are smaller

A body that a command brings along is an operand of the instruction, so the number of sequences in
it is less than that of the sequence around it. -/

section Size

theorem except_bind_eq_ok {ε α β : Type} {first : Except ε α} {next : α → Except ε β}
    {result : β} (h : first >>= next = .ok result) :
    ∃ value, first = .ok value ∧ next value = .ok result := by
  cases first with
  | error error => cases h
  | ok value => exact ⟨value, rfl, h⟩

namespace Command

theorem bodies_ofCall (method : String) : (ofCall method).bodies = [] := by
  unfold ofCall
  split <;> rfl

theorem bodies_ofSpecialObject (kind : Option Int64) : (ofSpecialObject kind).bodies = [] := by
  unfold ofSpecialObject
  split <;> rfl

theorem bodies_ofCallWithBlock (method : String) (block : Option Sequence) :
    (ofCallWithBlock method block).bodies ⊆ block.toList := by
  unfold ofCallWithBlock
  split
  · cases block <;> exact List.Subset.refl _
  · cases block <;> exact List.Subset.refl _
  · exact List.nil_subset _

end Command

namespace Instruction

theorem bodies_push_of_literalOperand {instruction : Instruction} {index : Nat} {value : Value}
    (h : instruction.literalOperand index = .ok value) : (Command.push value).bodies = [] := by
  unfold literalOperand at h
  split at h <;> cases h <;> rfl

theorem mem_operands_of_sequenceOperand {instruction : Instruction} {index : Nat}
    {body : Sequence} (h : instruction.sequenceOperand index = .ok body) :
    Operand.sequence body ∈ instruction.operands := by
  unfold sequenceOperand at h
  split at h
  · rename_i hoperand
    cases h
    exact List.mem_of_getElem? hoperand
  · cases h

/-- A command brings along only bodies that are operands of its instruction. -/
theorem mem_operands_of_mem_bodies {instruction : Instruction} {command : Command}
    {body : Sequence} (h : instruction.command? = some (.ok command))
    (hbody : body ∈ command.bodies) : Operand.sequence body ∈ instruction.operands := by
  -- One case for each opcode with a meaning, in the order of `command?`; those not named are
  -- commands that are fixed by the opcode and bring no body along.
  unfold command? at h
  split at h <;> simp only [Option.some.injEq, reduceCtorEq] at h
  case h_4 =>
    obtain ⟨value, hvalue, h⟩ := except_bind_eq_ok h
    cases h
    rw [bodies_push_of_literalOperand hvalue] at hbody
    cases hbody
  case h_5 =>
    cases h
    rw [Command.bodies_ofSpecialObject] at hbody
    cases hbody
  case h_6 =>
    obtain ⟨inner, hinner, h⟩ := except_bind_eq_ok h
    cases h
    rw [List.mem_singleton.1 hbody]
    exact mem_operands_of_sequenceOperand hinner
  case h_9 =>
    obtain ⟨name, -, h⟩ := except_bind_eq_ok h
    cases h
    cases hbody
  case h_10 =>
    obtain ⟨name, -, h⟩ := except_bind_eq_ok h
    obtain ⟨inner, hinner, h⟩ := except_bind_eq_ok h
    obtain ⟨flags, -, h⟩ := except_bind_eq_ok h
    cases h
    rw [List.mem_singleton.1 hbody]
    exact mem_operands_of_sequenceOperand hinner
  case h_11 =>
    obtain ⟨site, -, h⟩ := except_bind_eq_ok h
    cases h
    rw [Command.bodies_ofCall] at hbody
    cases hbody
  case h_12 =>
    obtain ⟨site, -, h⟩ := except_bind_eq_ok h
    cases h
    have hblock := Option.mem_toList.1 (Command.bodies_ofCallWithBlock _ _ hbody)
    obtain ⟨operand, hoperand, hsequence⟩ := Option.bind_eq_some_iff.1 hblock
    cases operand with
    | sequence inner =>
      cases hsequence
      exact List.mem_of_getElem? hoperand
    | _ => cases hsequence
  all_goals
    cases h
    cases hbody

theorem length_unfold_le_of_mem_operands {operand : Operand} {operands : List Operand}
    (h : operand ∈ operands) :
    operand.unfold.length ≤ (Operand.unfoldList operands).length := by
  induction h with
  | head rest =>
    rw [Operand.unfoldList, List.length_append]
    omega
  | tail other _ ih =>
    rw [Operand.unfoldList, List.length_append]
    omega

theorem unfold_eq (instruction : Instruction) :
    instruction.unfold = Operand.unfoldList instruction.operands := by
  rcases instruction with ⟨opcode, operands⟩
  rw [Instruction.unfold]

theorem length_unfold_le_of_mem_bodies {code : List Instruction} {inner : Sequence}
    (h : inner ∈ bodies code) : inner.unfold.length ≤ (unfoldList code).length := by
  induction code with
  | nil => cases h
  | cons instruction rest ih =>
    rw [unfoldList, List.length_append]
    have hrest (hinner : inner ∈ bodies rest) :
        inner.unfold.length ≤ instruction.unfold.length + (unfoldList rest).length :=
      Nat.le_trans (ih hinner) (Nat.le_add_left _ _)
    unfold bodies at h
    split at h
    · exact hrest h
    · exact hrest h
    · rename_i command hcommand
      split at h
      · cases h
      · rcases List.mem_append.1 h with hown | hlater
        · have hoperand := length_unfold_le_of_mem_operands
            (mem_operands_of_mem_bodies hcommand hown)
          rw [Operand.unfold] at hoperand
          rw [unfold_eq]
          omega
        · exact hrest hlater

end Instruction

theorem Sequence.length_unfold (s : Sequence) :
    s.unfold.length = (Instruction.unfoldList s.code).length + 1 := by
  rcases s with ⟨id, label, kind, path, code, parameters, locals⟩
  rw [Sequence.unfold, List.length_cons]

/-- A sequence holds more sequences than a body in it. -/
theorem Sequence.length_unfold_lt_of_mem_bodies {s inner : Sequence} (h : inner ∈ s.bodies) :
    inner.unfold.length < s.unfold.length := by
  rw [s.length_unfold]
  exact Nat.lt_succ_of_le (Instruction.length_unfold_le_of_mem_bodies h)

end Size

/-! ## Checking -/

namespace Sequence

/-- Whether a sequence that holds at most `levels` sequences is well-formed. -/
def checked : Nat → Sequence → Bool
  | 0, _ => false
  | levels + 1, s => Instruction.balanced 0 s.code && s.bodies.all (checked levels)

theorem checked_iff {levels : Nat} {s : Sequence} (h : s.unfold.length ≤ levels) :
    checked levels s ↔ s.WellFormed := by
  induction levels generalizing s with
  | zero =>
    rw [s.length_unfold] at h
    cases h
  | succ levels ih =>
    rw [checked, wellFormed_iff, Bool.and_eq_true, List.all_eq_true]
    refine and_congr_right fun _ => forall₂_congr fun inner hinner => ih ?_
    have hlength := length_unfold_lt_of_mem_bodies hinner
    omega

instance (s : Sequence) : Decidable s.WellFormed :=
  decidable_of_iff _ (checked_iff (Nat.le_refl s.unfold.length))

end Sequence

end ClassIndex
