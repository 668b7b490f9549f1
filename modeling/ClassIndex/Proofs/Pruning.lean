import ClassIndex.Proofs.Errands
import ClassIndex.Proofs.Requests

/-!
# Pruned code

Much of compiled code says nothing about classes and methods.  `Sequence.prune` drops it, in a
sequence and in all sequences in it: instructions without a meaning for indexing, calls that declare
nothing, and whatever follows the first `leave`.  Of the calls that are left only the target is
kept, and sequences may get any other title.

What is left asks for the same commands (`Instruction.command?_prune`), and a declaration asks the
same of the model, whether its arguments are pruned or not (`dispatch_prune`): of a sequence, the
model looks at the parameters only.
-/

namespace ClassIndex

/-! ## Pruning -/

/-- What a sequence is known by. -/
structure Title where
  id : SequenceId
  label : String
  kind : SequenceKind
  path : String

namespace Opcode

/-- The instructions that have a meaning for indexing. -/
def meaningful : List Opcode :=
  [.putNil, .putSelf, .putObject, .putSpecialObject, .putIseq, .pop, .getConstant, .defineClass,
    .optSendWithoutBlock, .send, .leave, .getInlineCache, .setInlineCache]

/-- Whether an instruction is a call. -/
def isCall (opcode : Opcode) : Bool :=
  opcode = .optSendWithoutBlock ∨ opcode = .send

/-- The calls that declare something, for each of the two forms of a call. -/
def declaringCalls : Opcode → List String
  | .optSendWithoutBlock => [MethodSide.instanceSide.definer, MethodSide.classSide.definer,
      MethodSide.instanceSide.finder, MethodSide.classSide.finder, MixinKind.included.name,
      MixinKind.extended.name, MixinKind.prepended.name]
  | .send => [MethodSide.instanceSide.definer, MethodSide.classSide.definer]
  | _ => []

end Opcode

/-- The call of the same target, without anything else. -/
def CallSite.bare (site : CallSite) : CallSite where
  method := site.target

/-- The operand without what does not matter of a call. -/
def Operand.bare : Operand → Operand
  | call site => call site.bare
  | other => other

namespace Instruction

/-- Whether an instruction is a call that declares nothing. -/
def isIdleCall (instruction : Instruction) : Bool :=
  instruction.opcode.isCall && ((instruction.operand? 0).bind Operand.call?).any fun site =>
    site.target ∉ instruction.opcode.declaringCalls

/-- Whether an instruction does nothing for indexing. -/
def isIdle (instruction : Instruction) : Bool :=
  instruction.opcode ∉ Opcode.meaningful || instruction.isIdleCall

end Instruction

mutual

/-- The operand with the sequence in it pruned. -/
def Operand.prune (title : Sequence → Title) : Operand → Operand
  | .sequence body => .sequence (body.prune title)
  | .nil => .nil
  | .literal value => .literal value
  | .call site => .call site

/-- The operands with the sequences in them pruned. -/
def Operand.pruneAll (title : Sequence → Title) : List Operand → List Operand
  | [] => []
  | operand :: rest => operand.prune title :: Operand.pruneAll title rest

/-- The instruction with the sequences in it pruned, and with a bare call if it is one. -/
def Instruction.prune (title : Sequence → Title) : Instruction → Instruction
  | ⟨opcode, operands⟩ =>
    let pruned := Operand.pruneAll title operands
    ⟨opcode, if opcode.isCall then pruned.modifyHead Operand.bare else pruned⟩

/-- The code up to its first `leave`, without what does nothing. -/
def Instruction.pruneAll (title : Sequence → Title) : List Instruction → List Instruction
  | [] => []
  | instruction :: rest =>
    if instruction.isIdle then
      Instruction.pruneAll title rest
    else if instruction.opcode = .leave then
      [instruction.prune title]
    else
      instruction.prune title :: Instruction.pruneAll title rest

/-- The sequence with its code pruned, under the title that `title` gives to it. -/
def Sequence.prune (title : Sequence → Title) : Sequence → Sequence
  | s@⟨_, _, _, _, code, parameters, locals⟩ =>
    ⟨(title s).id, (title s).label, (title s).kind, (title s).path,
      Instruction.pruneAll title code, parameters, locals⟩

end

variable (title : Sequence → Title)

theorem Sequence.code_prune (s : Sequence) :
    (s.prune title).code = Instruction.pruneAll title s.code := by
  cases s
  rw [prune]

/-- The parameters of a body are not touched. -/
theorem Sequence.signature_prune (s : Sequence) : (s.prune title).signature = s.signature := by
  cases s
  rw [prune]
  rfl

theorem Operand.pruneAll_eq_map (operands : List Operand) :
    pruneAll title operands = operands.map (prune title) := by
  induction operands with
  | nil => rw [pruneAll, List.map_nil]
  | cons operand rest ih => rw [pruneAll, ih, List.map_cons]

/-- The value with the sequence in it pruned. -/
def Value.prune : Value → Value
  | sequence body => sequence (body.prune title)
  | other => other

theorem Value.prune_of_sequence? {value : Value} (h : value.sequence? = none) :
    value.prune title = value := by
  cases value with
  | sequence body => cases h
  | _ => rfl

/-! ## Instructions -/

namespace Instruction

theorem opcode_prune (instruction : Instruction) :
    (instruction.prune title).opcode = instruction.opcode := by
  cases instruction
  rw [prune]

/-- An operand is pruned, and bare if it is that of a call. -/
theorem operand?_prune (instruction : Instruction) (index : Nat) :
    (instruction.prune title).operand? index = (instruction.operand? index).map fun operand =>
      if instruction.opcode.isCall ∧ index = 0 then (operand.prune title).bare
      else operand.prune title := by
  rcases instruction with ⟨opcode, operands⟩
  rw [prune]
  simp only [operand?, Operand.pruneAll_eq_map]
  cases opcode.isCall with
  | false => simp
  | true => cases operands <;> cases index <;> simp

theorem operand?_prune_of_not_isCall {instruction : Instruction}
    (h : instruction.opcode.isCall = false) (index : Nat) :
    (instruction.prune title).operand? index =
      (instruction.operand? index).map (Operand.prune title) := by
  rw [operand?_prune]
  simp [h]

section Operands

variable {instruction : Instruction} (h : instruction.opcode.isCall = false) (index : Nat)

include h

theorem literalOperand_prune : (instruction.prune title).literalOperand index =
    (instruction.literalOperand index).map (Value.prune title) := by
  unfold literalOperand malformed
  rw [operand?_prune_of_not_isCall title h, opcode_prune]
  rcases instruction.operand? index with _ | _ | _ | _ | _ <;> simp [Operand.prune] <;> rfl

theorem sequenceOperand_prune : (instruction.prune title).sequenceOperand index =
    (instruction.sequenceOperand index).map (Sequence.prune title) := by
  unfold sequenceOperand malformed
  rw [operand?_prune_of_not_isCall title h, opcode_prune]
  rcases instruction.operand? index with _ | _ | _ | _ | _ <;> simp [Operand.prune] <;> rfl

theorem integerOperand?_prune :
    (instruction.prune title).integerOperand? index = instruction.integerOperand? index := by
  unfold integerOperand?
  rw [operand?_prune_of_not_isCall title h]
  rcases instruction.operand? index with _ | _ | _ | _ | _ <;> simp [Operand.prune]

end Operands

theorem callOperand_prune {instruction : Instruction} (h : instruction.opcode.isCall = true) :
    (instruction.prune title).callOperand 0 = (instruction.callOperand 0).map CallSite.bare := by
  unfold callOperand malformed
  rw [operand?_prune, opcode_prune]
  rcases instruction.operand? 0 with _ | _ | _ | _ | _ <;>
    simp [h, Operand.prune, Operand.bare] <;> rfl

theorem block_prune (instruction : Instruction) :
    ((instruction.prune title).operand? 2).bind Operand.sequence? =
      ((instruction.operand? 2).bind Operand.sequence?).map (Sequence.prune title) := by
  rw [operand?_prune]
  rcases instruction.operand? 2 with _ | _ | _ | _ | _ <;> simp [Operand.prune, Operand.sequence?]

end Instruction

/-! ## Commands -/

namespace Command

/-- The command with the sequences in it pruned. -/
def prune : Command → Command
  | push value => push (value.prune title)
  | readConstant name => readConstant (name.prune title)
  | defineClass name body flags =>
    defineClass (name.prune title) (body.prune title) (flags.prune title)
  | defineFromBlock side block => defineFromBlock side (block.map (Sequence.prune title))
  | other => other

theorem prune_ofCall (method : String) : (ofCall method).prune title = ofCall method := by
  unfold ofCall
  split <;> rfl

theorem prune_ofCallWithBlock (method : String) (block : Option Sequence) :
    (ofCallWithBlock method block).prune title =
      ofCallWithBlock method (block.map (Sequence.prune title)) := by
  unfold ofCallWithBlock
  split <;> rfl

theorem prune_ofSpecialObject (kind : Option Int64) :
    (ofSpecialObject kind).prune title = ofSpecialObject kind := by
  unfold ofSpecialObject
  split <;> rfl

theorem takes_prune (command : Command) : (command.prune title).takes = command.takes := by
  cases command <;> rfl

theorem prune_eq_leave_iff {command : Command} :
    command.prune title = .leave ↔ command = .leave := by
  cases command <;> simp [prune]

theorem ofCall_of_not_mem {method : String}
    (h : method ∉ Opcode.optSendWithoutBlock.declaringCalls) :
    ofCall method = .ignoreCall method := by
  unfold ofCall
  split <;> first | rfl | exact absurd (by decide) h

theorem ofCallWithBlock_of_not_mem {method : String} (h : method ∉ Opcode.send.declaringCalls)
    (block : Option Sequence) : ofCallWithBlock method block = .ignoreCall method := by
  unfold ofCallWithBlock
  split <;> first | rfl | exact absurd (by decide) h

end Command

/-- Calls that declare something have no mark of the compiler's helpers left in their targets. -/
theorem CallSite.target_bare {site : CallSite} {opcode : Opcode}
    (h : site.target ∈ opcode.declaringCalls) : site.bare.target = site.target := by
  have hnames : ∀ opcode : Opcode, ∀ name ∈ opcode.declaringCalls,
      (CallSite.mk name 0 0).target = name := by
    intro opcode
    cases opcode <;> decide +kernel
  exact hnames opcode _ h

namespace Instruction

theorem callOperand_eq_ok_iff {instruction : Instruction} {index : Nat} {site : CallSite} :
    instruction.callOperand index = .ok site ↔
      (instruction.operand? index).bind Operand.call? = some site := by
  unfold callOperand
  rcases instruction.operand? index with _ | _ | _ | _ | _ <;> simp [Operand.call?]

theorem command?_eq_none_iff {instruction : Instruction} :
    instruction.command? = none ↔ instruction.opcode ∉ Opcode.meaningful := by
  rcases instruction with ⟨opcode, operands⟩
  cases opcode <;> simp [command?, Opcode.meaningful]

/-- What does nothing is not understood, or it is a call that is ignored. -/
theorem command?_of_isIdle {instruction : Instruction} (h : instruction.isIdle = true) :
    instruction.command? = none ∨
      ∃ method, instruction.command? = some (.ok (.ignoreCall method)) := by
  rw [isIdle, Bool.or_eq_true, decide_eq_true_eq] at h
  rcases h with hopcode | hcall
  · exact Or.inl (command?_eq_none_iff.2 hopcode)
  · rw [isIdleCall, Bool.and_eq_true, Option.any_eq_true] at hcall
    obtain ⟨hopcode, site, hoperand, htarget⟩ := hcall
    have hsite := callOperand_eq_ok_iff.2 hoperand
    refine Or.inr ⟨site.target, ?_⟩
    unfold command?
    rcases of_decide_eq_true hopcode with hopcode | hopcode
    all_goals
      rw [hopcode, decide_eq_true_eq] at htarget
      simp only [hopcode, hsite]
    · rw [← Command.ofCall_of_not_mem htarget]
      rfl
    · rw [← Command.ofCallWithBlock_of_not_mem htarget]
      rfl

theorem target_mem_declaringCalls {instruction : Instruction} (h : instruction.isIdle = false)
    (hcall : instruction.opcode.isCall = true) {site : CallSite}
    (hsite : instruction.callOperand 0 = .ok site) :
    site.target ∈ instruction.opcode.declaringCalls := by
  rw [isIdle, Bool.or_eq_false_iff, isIdleCall, hcall, callOperand_eq_ok_iff.1 hsite] at h
  simpa using h.2

/-- What is left asks for what it did, with the sequences in it pruned. -/
theorem command?_prune {instruction : Instruction} (h : instruction.isIdle = false) :
    (instruction.prune title).command? =
      instruction.command?.map (Except.map (Command.prune title)) := by
  unfold command?
  rw [opcode_prune]
  -- The cases that are named read operands; the command of the others is fixed by the opcode.
  split <;> rename_i hopcode
  case h_4 =>
    rw [literalOperand_prune title (by rw [hopcode]; rfl)]
    cases instruction.literalOperand 0 <;> rfl
  case h_5 =>
    rw [integerOperand?_prune title (by rw [hopcode]; rfl), Option.map_some, Except.map,
      Command.prune_ofSpecialObject]
  case h_6 =>
    rw [sequenceOperand_prune title (by rw [hopcode]; rfl)]
    cases instruction.sequenceOperand 0 <;> rfl
  case h_9 =>
    rw [literalOperand_prune title (by rw [hopcode]; rfl)]
    cases instruction.literalOperand 0 <;> rfl
  case h_10 =>
    have hcall : instruction.opcode.isCall = false := by rw [hopcode]; rfl
    rw [literalOperand_prune title hcall, sequenceOperand_prune title hcall,
      literalOperand_prune title hcall]
    rcases instruction.literalOperand 0 with error | name
    · rfl
    rcases instruction.sequenceOperand 1 with error | body
    · rfl
    rcases instruction.literalOperand 2 with error | flags <;> rfl
  case h_11 =>
    have hcall : instruction.opcode.isCall = true := by rw [hopcode]; rfl
    rw [callOperand_prune title hcall]
    rcases hsite : instruction.callOperand 0 with error | site
    · rfl
    · show some (Except.ok (Command.ofCall site.bare.target)) =
        some (Except.ok ((Command.ofCall site.target).prune title))
      rw [CallSite.target_bare (target_mem_declaringCalls h hcall hsite), Command.prune_ofCall]
  case h_12 =>
    have hcall : instruction.opcode.isCall = true := by rw [hopcode]; rfl
    rw [callOperand_prune title hcall, block_prune]
    rcases hsite : instruction.callOperand 0 with error | site
    · rfl
    · show some (Except.ok (Command.ofCallWithBlock site.bare.target _)) =
        some (Except.ok ((Command.ofCallWithBlock site.target _).prune title))
      rw [CallSite.target_bare (target_mem_declaringCalls h hcall hsite),
        Command.prune_ofCallWithBlock]
  all_goals rfl

end Instruction

/-! ## Requests -/

namespace Value

theorem class?_prune (value : Value) : (value.prune title).class? = value.class? := by
  cases value <;> rfl

theorem name?_prune (value : Value) : (value.prune title).name? = value.name? := by
  cases value <;> rfl

theorem integer?_prune (value : Value) : (value.prune title).integer? = value.integer? := by
  cases value <;> rfl

theorem typeName_prune (value : Value) : (value.prune title).typeName = value.typeName := by
  cases value <;> rfl

theorem sequence?_prune (value : Value) :
    (value.prune title).sequence? = value.sequence?.map (Sequence.prune title) := by
  cases value <;> rfl

theorem prune_ofSequence? (body : Option Sequence) :
    (ofSequence? body).prune title = ofSequence? (body.map (Sequence.prune title)) := by
  cases body <;> rfl

end Value

namespace Arguments

/-- The arguments with the sequences among them pruned. -/
def prune (args : Arguments) : Arguments :=
  { args with values := args.values.map (Value.prune title) }

variable (args : Arguments) (index : Nat)

theorem get_prune : (args.prune title).get index = (args.get index).prune title := by
  unfold prune get
  rw [List.getElem?_map]
  cases args.values[index]? <;> rfl

theorem require_prune {α : Type} (expected : String) (given : Option α) :
    (args.prune title).require index expected given = args.require index expected given := by
  cases given with
  | some value => rfl
  | none =>
    simp only [require, invalid, get_prune, Value.typeName_prune]
    rfl

theorem name_prune : (args.prune title).name index = args.name index := by
  rw [name, name, get_prune, Value.name?_prune, require_prune]

theorem flags_prune : (args.prune title).flags index = args.flags index := by
  simp only [flags, integer, get_prune, Value.integer?_prune, require_prune]

theorem classOrNil_prune : (args.prune title).classOrNil index = args.classOrNil index := by
  unfold classOrNil invalid
  rw [get_prune, Value.typeName_prune]
  cases args.get index <;> rfl

end Arguments

namespace Request

/-- The request with the sequence in it pruned. -/
def prune : Request → Request
  | method side id name body => method side id name (body.prune title)
  | other => other

/-- A method gets the same record from a pruned body. -/
theorem methodFrom_prune (model : Model) (name : String) (owner : ClassId) (body : Value) :
    Declarations.methodFrom model name owner (body.prune title) =
      Declarations.methodFrom model name owner body := by
  cases body with
  | sequence body =>
    show MethodRecord.mk _ _ (body.prune title).signature _ _ = _
    rw [Sequence.signature_prune]
    rfl
  | _ => rfl

theorem fulfil_prune (request : Request) (model : Model) :
    (request.prune title).fulfil model = request.fulfil model := by
  cases request with
  | method side id name body => simp only [prune, fulfil, methodFrom_prune]
  | _ => rfl

end Request

/-- The check of the arguments does not look into sequences. -/
theorem DeclarationKind.request_prune (kind : DeclarationKind) (args : Arguments) :
    kind.request (args.prune title) = (kind.request args).map (Request.prune title) := by
  cases kind with
  | defineClass =>
    simp only [request, Arguments.name_prune, Arguments.classOrNil_prune, Arguments.flags_prune,
      Arguments.get_prune, Value.class?_prune]
    rcases args.name 0 with error | name
    · rfl
    rcases args.classOrNil 2 with error | superclass
    · rfl
    rcases args.flags 4 with error | flags
    · rfl
    show (if _ then _ else _) = Except.map _ (if _ then _ else _)
    split
    · cases (args.get 3).class? <;> rfl
    · rfl
  | getConstant =>
    simp only [request, Arguments.name_prune, Arguments.get_prune, Value.class?_prune]
    cases args.name 0 <;> rfl
  | defineMethod side | findMethod side =>
    simp only [request, Arguments.name_prune, Arguments.get_prune, Value.class?_prune]
    rcases (args.get 0).class? with _ | id
    · rfl
    · cases args.name 1 <;> rfl
  | mixIn kind =>
    simp only [request, Arguments.get_prune, Value.class?_prune]
    rcases (args.get 0).class? with _ | id
    · rfl
    · cases (args.get 1).class? <;> rfl

/-- Whoever answers a declaration does not look into sequences. -/
theorem Declarations.dispatch_prune {opcode : Opcode} {qualifier : Option String}
    {values : List Value} {host other after : Host Model} {outcome : Except RunError Value}
    (hstate : other.state = host.state)
    (hrun : (processors.dispatch opcode qualifier values).run.run host = (outcome, after)) :
    outcome.map (Value.prune title) = outcome ∧
      ∃ after', (processors.dispatch opcode qualifier (values.map (Value.prune title))).run.run
          other = (outcome, after') ∧
        after'.state = after.state := by
  obtain ⟨check, hcheck, hresults⟩ := run_dispatch opcode qualifier
  have hresult := hresults values host
  have hresult' := hresults (values.map (Value.prune title)) other
  have hanswer : Request.answer (check (values.map (Value.prune title))) other.state =
      Request.answer (check values) host.state := by
    rw [hstate]
    rcases hcheck with hnothing | ⟨kind, hkind⟩
    · rw [hnothing, hnothing]
    · rw [hkind, hkind]
      have hrequest := kind.request_prune title ⟨opcode.name, values⟩
      rw [show kind.request ⟨opcode.name, values.map (Value.prune title)⟩ = _ from hrequest]
      rcases kind.request ⟨opcode.name, values⟩ with error | request
      · rfl
      · rw [Except.map, Request.answer, Request.answer, Request.fulfil_prune]
  rw [ActionM.Results, hrun] at hresult
  rw [hanswer, ← hresult] at hresult'
  refine ⟨?_, hresult'.exists_run⟩
  rw [show outcome = _ from congrArg Prod.fst hresult]
  rcases check values with error | request
  · rfl
  · exact congrArg Except.ok (Value.prune_of_sequence? title (request.sequence?_fulfil host.state))

end ClassIndex
