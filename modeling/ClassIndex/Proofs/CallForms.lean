import ClassIndex.Proofs.FrameRule

/-!
# The two forms of a method definition

A method is defined by a call, and its body comes with the call in one of two ways: it is pushed as
a value before a plain call, or it is the block of a call that may have one.  The first form takes
the receiver of `define_method` from the scope, the second one from the stack; both take that of
`define_singleton_method` from the stack.

Apart from the events, both forms do the same, whatever code follows and however deep it goes down.
They hand the same values to the same processor, under two names: so they can be told apart just by
the error of a definition that is refused, and `view_run_stacked_blocked` says when that is.
-/

namespace ClassIndex

open Declarations (processors)

/-! ## Runs apart from their events -/

namespace RunM

variable {σ α β : Type} {machine other after : Machine σ}

/-- How a run ends, apart from what it reports; nothing if it goes too deep. -/
def view (run : RunM σ α) (machine : Machine σ) : Option (Except RunError α × Snapshot σ) :=
  (run.run.run machine).map fun (result, after) => (result, after.snapshot)

theorem Ends.view_eq {run : RunM σ α} {result : Except RunError α}
    (h : run.Ends machine result after) : run.view machine = some (result, after.snapshot) := by
  unfold view
  rw [h]
  rfl

/-- Two runs look the same if each of them ends as the other one does. -/
theorem view_eq_of_ends {run run' : RunM σ α}
    (h : ∀ result after, run.Ends machine result after →
      run'.view other = some (result, after.snapshot))
    (h' : ∀ result after, run'.Ends other result after →
      run.view machine = some (result, after.snapshot)) :
    run.view machine = run'.view other := by
  rcases hrun : run.run.run machine with _ | ⟨result, after⟩
  · rcases hrun' : run'.run.run other with _ | ⟨result', after'⟩
    · unfold view
      rw [hrun, hrun']
    · rw [h' result' after' hrun', Ends.view_eq hrun']
  · rw [h result after hrun, Ends.view_eq hrun]

/-- The run does not depend on what was reported before. -/
def Indifferent (run : RunM σ α) : Prop :=
  ∀ machine other : Machine σ, machine.snapshot = other.snapshot →
    run.view machine = run.view other

theorem view_bind_congr {run run' : RunM σ α} {next : α → RunM σ β}
    (h : run.view machine = run'.view other) (hnext : ∀ value, (next value).Indifferent) :
    (run >>= next).view machine = (run' >>= next).view other := by
  unfold view at h ⊢
  rw [run_bind, run_bind]
  rcases hrun' : run'.run.run other with _ | ⟨result', between'⟩
  · rw [hrun', Option.map_none, Option.map_eq_none_iff] at h
    rw [h]
  · rw [hrun'] at h
    obtain ⟨⟨result, between⟩, hrun, hsame⟩ := Option.map_eq_some_iff.1 h
    obtain ⟨rfl, hsnapshot⟩ := Prod.mk.inj hsame
    rw [hrun]
    cases result with
    | ok value => exact hnext value between between' hsnapshot
    | error error => exact congrArg some (Prod.ext rfl hsnapshot)

theorem Indifferent.bind {run : RunM σ α} {next : α → RunM σ β} (h : run.Indifferent)
    (hnext : ∀ value, (next value).Indifferent) : (run >>= next).Indifferent :=
  fun machine other hsame => view_bind_congr (h machine other hsame) hnext

theorem view_bind_of_error {run : RunM σ α} {next : α → RunM σ β} {error : RunError}
    {snapshot : Snapshot σ} (h : run.view machine = some (.error error, snapshot)) :
    (run >>= next).view machine = some (.error error, snapshot) := by
  unfold view at h ⊢
  obtain ⟨⟨result, between⟩, hrun, hresult⟩ := Option.map_eq_some_iff.1 h
  cases hresult
  rw [run_bind, hrun]
  rfl

theorem view_act {action : ActionM σ α} {outcome : Except RunError α} {state : σ}
    (h : action.Results machine.host (outcome, state)) :
    (act action).view machine = some (outcome, ⟨machine.memory, state⟩) := by
  obtain ⟨host, hrun, rfl⟩ := h.exists_run
  exact (ends_act_iff.2 ⟨host, hrun, rfl⟩).view_eq

theorem view_attempt_bind {operation : Memory → Except RunError (α × Memory)} {value : α}
    {left : Memory} (h : operation machine.memory = .ok (value, left)) (next : α → RunM σ β) :
    (attempt operation >>= next).view machine =
      (next value).view { machine with memory := left } := by
  have hends : (attempt operation : RunM σ α).Ends machine (.ok value)
      { machine with memory := left } :=
    ends_attempt_iff.2 (Or.inr ⟨value, left, h, rfl, rfl⟩)
  unfold view
  rw [run_bind, show _ = _ from hends]
  rfl

theorem view_attempt (operation : Memory → Except RunError (α × Memory)) (machine : Machine σ) :
    (attempt operation : RunM σ α).view machine =
      match operation machine.snapshot.memory with
      | .error error => some (.error error, machine.snapshot)
      | .ok (value, left) => some (.ok value, ⟨left, machine.snapshot.state⟩) := by
  split
  · rename_i error herror
    exact (ends_attempt_iff.2 (Or.inl ⟨error, herror, rfl, rfl⟩)).view_eq
  · rename_i value left hvalue
    exact (ends_attempt_iff.2 (Or.inr ⟨value, left, hvalue, rfl, rfl⟩)).view_eq

theorem indifferent_attempt (operation : Memory → Except RunError (α × Memory)) :
    (attempt operation : RunM σ α).Indifferent := by
  intro machine other hsame
  rw [view_attempt, view_attempt, hsame]

end RunM

/-- Machines are alike if they differ in their events only. -/
def Simulation.apartFromEvents : Simulation Model Model :=
  agreement (fun host other => other.state = host.state) fun _ => True

theorem Simulation.lawful_apartFromEvents : apartFromEvents.Lawful processors processors [] :=
  lawful_state fun _ => rfl

namespace Machine

section Indifferent

/-- A run that is followed by itself, from machines that differ in their events only, does not
depend on events. -/
theorem indifferent_of_follows {run : RunM Model Unit}
    (h : ∀ machine other, Simulation.apartFromEvents.Machines [] machine other →
      Simulation.apartFromEvents.Follows [] (fun _ _ _ _ => True) run run machine other) :
    run.Indifferent := by
  -- The second machine follows the first one.  To follow is stated for runs that end, so that a run
  -- that goes too deep needs the other direction as well.
  have hends : ∀ {machine other : Machine Model}, machine.snapshot = other.snapshot →
      ∀ result after, run.Ends machine result after →
        run.view other = some (result, after.snapshot) := by
    intro machine other hsame result after hends
    have hmemory : other.memory = machine.memory.above [] := by
      rw [Memory.above_nil]
      exact congrArg Snapshot.memory hsame.symm
    obtain ⟨result', after', hends', hending⟩ := h machine other
      ⟨congrArg Snapshot.state hsame.symm, Memory.alike_eq_iff.2 hmemory⟩ result after hends
      (fun _ _ => trivial) trivial
    cases hending with
    | together houtcomes hmachines _ =>
      have hresult : result' = result := by
        cases houtcomes <;> rfl
      have hafter : after'.snapshot = after.snapshot := by
        have hmemory' := Memory.alike_eq_iff.1 hmachines.memory
        rw [Memory.above_nil] at hmemory'
        unfold snapshot
        rw [hmemory', show after'.host.state = after.host.state from hmachines.hosts]
      rw [hends'.view_eq, hresult, hafter]
    | stopped _ hstopped => exact hstopped.elim
  intro machine other hsame
  exact RunM.view_eq_of_ends (hends hsame) (hends hsame.symm)

variable (levels : Nat)

theorem indifferent_runCode (code : List Instruction) :
    (runCode processors (runInFrame processors levels) code).Indifferent := by
  have law := Simulation.lawful_apartFromEvents
  exact indifferent_of_follows fun _ _ hmachines =>
    Simulation.follows_runCode law (Simulation.nests_runInFrame law (Nat.le_refl levels))
      (law.within.of_runInFrame levels) hmachines code

theorem indifferent_runEntityWith (entity : Value) (body : Sequence) :
    (runEntityWith (runInFrame processors levels) entity body).Indifferent := by
  have law := Simulation.lawful_apartFromEvents
  exact indifferent_of_follows fun _ _ hmachines =>
    Simulation.follows_settle law (Simulation.nests_runInFrame law (Nat.le_refl levels)) hmachines
      (.definition body rfl)

end Indifferent

end Machine

/-! ## Definitions of methods -/

/-- What a method is defined on, and the memory without it. -/
def MethodSide.receiver (side : MethodSide) (memory : Memory) : Except RunError (Value × Memory) :=
  match side with
  | .instanceSide => .ok (memory.self, memory)
  | .classSide => memory.pop

/-- The memory with the receiver on the stack, as far as there is one. -/
def MethodSide.offer (side : MethodSide) (memory : Memory) : Memory :=
  match side with
  | .instanceSide => memory.push memory.self
  | .classSide => memory

/-- A definition is refused if it is made on a class and what should be the name is none. -/
def MethodSide.Refused (side : MethodSide) (name : Value) (memory left : Memory) : Prop :=
  ∃ receiver, side.receiver memory = .ok (receiver, left) ∧ receiver.class?.isSome ∧
    name.name? = none

namespace Declarations

theorem find?_defineMethod_send (side : MethodSide) :
    processors.find? .send (some side.definer) = some ⟨[side.definer], defineMethod side⟩ := by
  rw [find?_eq_search?]
  cases side <;> rfl

theorem dispatch_defineMethod {opcode : Opcode} {side : MethodSide}
    (h : opcode ∈ (DeclarationKind.defineMethod side).opcodes) (values : List Value) :
    processors.dispatch opcode side.definer values =
      (DeclarationKind.defineMethod side).processor ⟨opcode.name, values⟩ := by
  rcases List.mem_cons.1 h with rfl | h
  · exact dispatch_eq (find?_defineMethod side) values
  · obtain rfl := List.mem_singleton.1 h
    exact dispatch_eq (find?_defineMethod_send side) values

end Declarations

namespace DeclarationKind

variable {side : MethodSide} {receiver name : Value}

/-- On a class, the check of a definition is that of its name. -/
theorem request_defineMethod_of_class {id : ClassId} (hreceiver : receiver.class? = some id)
    (processor : String) (body : Value) :
    (defineMethod side).request ⟨processor, [receiver, name, body]⟩ =
      Arguments.require ⟨processor, [receiver, name, body]⟩ 1 "a name" name.name? >>= fun given =>
        .ok (.method side id given body) := by
  have hget : (Arguments.get ⟨processor, [receiver, name, body]⟩ 0).class? = some id := hreceiver
  rw [request, hget]
  rfl

/-- A definition that is refused names the processor that it was handed to. -/
theorem request_defineMethod_of_refused (hreceiver : receiver.class?.isSome)
    (hname : name.name? = none) (processor : String) (body : Value) :
    (defineMethod side).request ⟨processor, [receiver, name, body]⟩ =
      .error (.invalidArgument processor 1 "a name" name.typeName) := by
  obtain ⟨id, hid⟩ := Option.isSome_iff_exists.1 hreceiver
  rw [request_defineMethod_of_class hid, hname]
  rfl

/-- A definition that is not refused does not tell which processor it was handed to. -/
theorem request_defineMethod_congr (h : receiver.class?.isSome → name.name? ≠ none)
    (processor other : String) (body : Value) :
    (defineMethod side).request ⟨processor, [receiver, name, body]⟩ =
      (defineMethod side).request ⟨other, [receiver, name, body]⟩ := by
  rcases hid : receiver.class? with _ | id
  · have hget (processor : String) :
        (Arguments.get ⟨processor, [receiver, name, body]⟩ 0).class? = none := hid
    rw [request, request, hget, hget]
  · obtain ⟨given, hgiven⟩ := Option.ne_none_iff_exists'.1 (h (hid ▸ rfl))
    rw [request_defineMethod_of_class hid, request_defineMethod_of_class hid, hgiven]
    rfl

end DeclarationKind

namespace Machine

/-- Defines a method with a body, runs the body and goes on with further code. -/
def defining (levels : Nat) (opcode : Opcode) (side : MethodSide) (name : Value) (body : Sequence)
    (rest : List Instruction) : RunM Model Unit := do
  let receiver ← RunM.attempt side.receiver
  let method ← RunM.act (processors.dispatch opcode side.definer [receiver, name, .sequence body])
  runEntityWith (runInFrame processors levels) method body
  runCode processors (runInFrame processors levels) rest

variable {levels : Nat} {opcode : Opcode} {side : MethodSide} {name : Operand} {value : Value}
  {body : Sequence} {rest : List Instruction}

/-- Whatever was reported, a definition shows what the check of its arguments and the model make of
it. -/
theorem view_act_defineMethod (h : opcode ∈ (DeclarationKind.defineMethod side).opcodes)
    (values : List Value) (machine : Machine Model) :
    (RunM.act (processors.dispatch opcode side.definer values)).view machine =
      let answer := Request.answer
        ((DeclarationKind.defineMethod side).request ⟨opcode.name, values⟩) machine.snapshot.state
      some (answer.1, ⟨machine.snapshot.memory, answer.2⟩) := by
  rw [Declarations.dispatch_defineMethod h]
  exact RunM.view_act ((DeclarationKind.defineMethod side).run_processor _ machine.host)

theorem indifferent_defining (h : opcode ∈ (DeclarationKind.defineMethod side).opcodes) :
    (defining levels opcode side value body rest).Indifferent := by
  refine (RunM.indifferent_attempt _).bind fun receiver => ?_
  refine RunM.Indifferent.bind ?_ fun method => ?_
  · intro machine other hsame
    rw [view_act_defineMethod h, view_act_defineMethod h, hsame]
  · exact (indifferent_runEntityWith levels method body).bind fun _ =>
      indifferent_runCode levels rest

theorem view_defining_of_refused {machine : Machine Model} {left : Memory}
    (hopcode : opcode ∈ (DeclarationKind.defineMethod side).opcodes)
    (h : side.Refused value machine.memory left) :
    (defining levels opcode side value body rest).view machine =
      some (.error (.invalidArgument opcode.name 1 "a name" value.typeName),
        ⟨left, machine.host.state⟩) := by
  obtain ⟨receiver, hreceiver, hclass, hname⟩ := h
  unfold defining
  rw [RunM.view_attempt_bind hreceiver]
  refine RunM.view_bind_of_error ?_
  rw [view_act_defineMethod hopcode,
    DeclarationKind.request_defineMethod_of_refused hclass hname]
  rfl

/-- A definition that is not refused is the same under both calls. -/
theorem view_defining_congr {other : Opcode} {machine : Machine Model}
    (hopcode : opcode ∈ (DeclarationKind.defineMethod side).opcodes)
    (hother : other ∈ (DeclarationKind.defineMethod side).opcodes)
    (h : ∀ left, ¬ side.Refused value machine.memory left) :
    (defining levels opcode side value body rest).view machine =
      (defining levels other side value body rest).view machine := by
  unfold defining
  rcases hreceiver : side.receiver machine.memory with error | ⟨receiver, left⟩
  · have hattempt : (RunM.attempt side.receiver).view machine =
        some (.error error, machine.snapshot) := by
      rw [RunM.view_attempt, show side.receiver machine.snapshot.memory = _ from hreceiver]
    rw [RunM.view_bind_of_error hattempt, RunM.view_bind_of_error hattempt]
  · rw [RunM.view_attempt_bind hreceiver, RunM.view_attempt_bind hreceiver]
    refine RunM.view_bind_congr ?_ fun method =>
      (indifferent_runEntityWith levels method body).bind fun _ => indifferent_runCode levels rest
    have haccepted : receiver.class?.isSome → value.name? ≠ none :=
      fun hclass hname => h left ⟨receiver, hreceiver, hclass, hname⟩
    rw [view_act_defineMethod hopcode, view_act_defineMethod hother,
      DeclarationKind.request_defineMethod_congr haccepted opcode.name other.name]

/-! ## Single instructions -/

theorem view_runCode_push {instruction : Instruction}
    (h : instruction.command? = some (.ok (.push value))) (memory : Memory) (host : Host Model) :
    (runCode processors (runInFrame processors levels) (instruction :: rest)).view ⟨memory, host⟩ =
      (runCode processors (runInFrame processors levels) rest).view ⟨memory.push value, host⟩ := by
  rw [runCode, step_of_ok h]
  exact indifferent_runCode levels rest
    ⟨memory.push value, host.reporting (.running instruction)⟩ _ rfl

theorem view_runCode_pushSelf {instruction : Instruction}
    (h : instruction.command? = some (.ok .pushSelf)) (memory : Memory) (host : Host Model) :
    (runCode processors (runInFrame processors levels) (instruction :: rest)).view ⟨memory, host⟩ =
      (runCode processors (runInFrame processors levels) rest).view
        ⟨memory.push memory.self, host⟩ := by
  rw [runCode, step_of_ok h]
  exact indifferent_runCode levels rest
    ⟨memory.push memory.self, host.reporting (.running instruction)⟩ _ rfl

/-- A plain call finds the body and the name on the stack. -/
theorem view_runCode_defineMethod {instruction : Instruction}
    (h : instruction.command? = some (.ok (.defineMethod side))) (memory : Memory)
    (host : Host Model) :
    (runCode processors (runInFrame processors levels) (instruction :: rest)).view
        ⟨(memory.push value).push (.sequence body), host⟩ =
      (defining levels .optSendWithoutBlock side value body rest).view ⟨memory, host⟩ := by
  refine .trans ?_ (indifferent_defining List.mem_cons_self
    ⟨memory, host.reporting (.running instruction)⟩ _ rfl)
  -- With all parts in one row, both runs can be evaluated up to the call of the processor.
  simp only [runCode, step_of_ok h, execute, flowAfter, bind_assoc, pure_bind]
  cases side <;> rfl

/-- A call with a block finds the name on the stack, and below it the receiver. -/
theorem view_runCode_defineFromBlock {instruction : Instruction}
    (h : instruction.command? = some (.ok (.defineFromBlock side (some body)))) (memory : Memory)
    (host : Host Model) :
    (runCode processors (runInFrame processors levels) (instruction :: rest)).view
        ⟨(side.offer memory).push value, host⟩ =
      (defining levels .send side value body rest).view ⟨memory, host⟩ := by
  refine .trans ?_ (indifferent_defining (List.mem_cons_of_mem _ List.mem_cons_self)
    ⟨memory, host.reporting (.running instruction)⟩ _ rfl)
  simp only [runCode, step_of_ok h, execute, flowAfter, bind_assoc, pure_bind]
  cases side <;> rfl

/-! ## Both forms -/

/-- Pushes a name and a body and makes a plain call. -/
def stacked (name : Operand) (body : Sequence) (site : CallSite) (more : List Operand) :
    List Instruction :=
  [⟨.putObject, [name]⟩, ⟨.putIseq, [.sequence body]⟩, ⟨.optSendWithoutBlock, .call site :: more⟩]

/-- Pushes a name and makes a call with a block.  A receiver that is the scope has to be pushed
first. -/
def blocked (side : MethodSide) (name : Operand) (body : Sequence) (site : CallSite)
    (cache : Operand) (more : List Operand) : List Instruction :=
  let call := [⟨.putObject, [name]⟩, ⟨.send, .call site :: cache :: .sequence body :: more⟩]
  match side with
  | .instanceSide => ⟨.putSelf, []⟩ :: call
  | .classSide => call

theorem command?_putObject
    (hname : (Instruction.mk .putObject [name]).literalOperand 0 = .ok value) :
    (Instruction.mk .putObject [name]).command? = some (.ok (.push value)) := by
  show some ((Instruction.mk .putObject [name]).literalOperand 0 >>= _) = _
  rw [hname]
  rfl

theorem command?_plainCall {site : CallSite} (hsite : site.target = side.definer)
    (more : List Operand) :
    (Instruction.mk .optSendWithoutBlock (.call site :: more)).command? =
      some (.ok (.defineMethod side)) := by
  show some (Except.ok (Command.ofCall site.target)) = _
  rw [hsite]
  cases side <;> rfl

theorem command?_blockCall {site : CallSite} (hsite : site.target = side.definer)
    (cache : Operand) (more : List Operand) :
    (Instruction.mk .send (.call site :: cache :: .sequence body :: more)).command? =
      some (.ok (.defineFromBlock side (some body))) := by
  show some (Except.ok (Command.ofCallWithBlock site.target (some body))) = _
  rw [hsite]
  cases side <;> rfl

/-- Both forms come down to one definition, by different instructions. -/
theorem view_stacked (hname : (Instruction.mk .putObject [name]).literalOperand 0 = .ok value)
    {site : CallSite} (hsite : site.target = side.definer) (more : List Operand)
    (machine : Machine Model) :
    (runCode processors (runInFrame processors levels)
        (stacked name body site more ++ rest)).view machine =
      (defining levels .optSendWithoutBlock side value body rest).view machine :=
  (view_runCode_push (command?_putObject hname) machine.memory machine.host).trans <|
    (view_runCode_push rfl (machine.memory.push value) machine.host).trans <|
      view_runCode_defineMethod (command?_plainCall hsite more) machine.memory machine.host

theorem view_blocked (hname : (Instruction.mk .putObject [name]).literalOperand 0 = .ok value)
    {site : CallSite} (hsite : site.target = side.definer) (cache : Operand) (more : List Operand)
    (machine : Machine Model) :
    (runCode processors (runInFrame processors levels)
        (blocked side name body site cache more ++ rest)).view machine =
      (defining levels .send side value body rest).view machine := by
  have hcall : (runCode processors (runInFrame processors levels)
      (⟨.send, .call site :: cache :: .sequence body :: more⟩ :: rest)).view
        ⟨(side.offer machine.memory).push value, machine.host⟩ =
      (defining levels .send side value body rest).view machine :=
    view_runCode_defineFromBlock (command?_blockCall hsite cache more) machine.memory machine.host
  cases side with
  | instanceSide =>
    exact (view_runCode_pushSelf rfl machine.memory machine.host).trans <|
      (view_runCode_push (command?_putObject hname) _ machine.host).trans hcall
  | classSide =>
    exact (view_runCode_push (command?_putObject hname) machine.memory machine.host).trans hcall

/-- A sequence does what its code does: only a report comes first. -/
theorem view_run (body : Sequence) (machine : Machine Model) :
    (run processors levels body).view machine =
      (runCode processors (runInFrame processors levels) body.code).view machine :=
  indifferent_runCode levels body.code (machine.reporting (.entered body)) machine rfl

/-- The two forms of a method definition, with any code after them, end alike on every machine: with
the same result, the same memory and the same model, or both too deep.  The one exception is a
definition that is refused, where the error names the instruction. -/
theorem view_run_stacked_blocked (side : MethodSide) {name : Operand} {value : Value}
    (hname : (Instruction.mk .putObject [name]).literalOperand 0 = .ok value)
    {site site' : CallSite} (hsite : site.target = side.definer)
    (hsite' : site'.target = side.definer) {body : Sequence} {cache : Operand}
    {more more' : List Operand} {rest : List Instruction} {first second : Sequence}
    (hfirst : first.code = stacked name body site more ++ rest)
    (hsecond : second.code = blocked side name body site' cache more' ++ rest) (levels : Nat)
    (machine : Machine Model) :
    let refusal (opcode : Opcode) : RunError :=
      .invalidArgument opcode.name 1 "a name" value.typeName
    (∀ left, side.Refused value machine.memory left →
      (run processors levels first).view machine =
          some (.error (refusal .optSendWithoutBlock), ⟨left, machine.host.state⟩) ∧
        (run processors levels second).view machine =
          some (.error (refusal .send), ⟨left, machine.host.state⟩)) ∧
    ((∀ left, ¬ side.Refused value machine.memory left) →
      (run processors levels first).view machine =
        (run processors levels second).view machine) := by
  intro refusal
  have hplain : .optSendWithoutBlock ∈ (DeclarationKind.defineMethod side).opcodes :=
    List.mem_cons_self
  have hblock : .send ∈ (DeclarationKind.defineMethod side).opcodes :=
    List.mem_cons_of_mem _ List.mem_cons_self
  rw [view_run, view_run, hfirst, hsecond, view_stacked hname hsite, view_blocked hname hsite']
  constructor
  · intro left hrefused
    exact ⟨view_defining_of_refused hplain hrefused, view_defining_of_refused hblock hrefused⟩
  · exact view_defining_congr hplain hblock

/-- The body of a method. -/
def greeting : Sequence :=
  (Sequence.start "greet" .method).putNil.leave

/-- Defines the method in the body of a class, by a plain call. -/
def stackedGreeting (name : Literal) : Sequence :=
  ((Sequence.start "<class:Greeter>" .classBody).putLiteral name).putBody greeting
    |>.call "core#define_method" 2

/-- Defines the method in the body of a class, by a call with a block. -/
def blockedGreeting (name : Literal) : Sequence :=
  (Sequence.start "<class:Greeter>" .classBody).putSelf.putLiteral name
    |>.callWithBlock "define_method" 1 greeting

/-- The machine inside the body of the one class that there is. -/
def inGreeter : Machine Model where
  memory := .ofRoot (.classRef ⟨0⟩)
  host := { state := (({} : Model).define "Greeter" (.ordinary "Greeter" none none)).2 }

theorem code_stackedGreeting (name : Literal) :
    (stackedGreeting name).code =
      stacked (.literal name) greeting ⟨"core#define_method", 2, 0⟩ [.nil] ++ [] :=
  rfl

theorem code_blockedGreeting (name : Literal) :
    (blockedGreeting name).code =
      blocked .instanceSide (.literal name) greeting ⟨"define_method", 1, 0⟩ .nil [] ++ [] :=
  rfl

/-- Both forms define the method, and neither takes a number for its name. -/
theorem view_run_stacked_blocked_greeting :
    (run processors 1 (stackedGreeting (.symbol "greet"))).view inGreeter =
        (run processors 1 (blockedGreeting (.symbol "greet"))).view inGreeter ∧
      ((run processors 1 (blockedGreeting (.symbol "greet"))).view inGreeter).any
        (fun ending => ending.1.toBool && ending.2.state.methods.size == 1) ∧
      (run processors 1 (stackedGreeting (.integer 7))).view inGreeter =
        some (.error (.invalidArgument "opt_send_without_block" 1 "a name" "literal"),
          inGreeter.snapshot) ∧
      (run processors 1 (blockedGreeting (.integer 7))).view inGreeter =
        some (.error (.invalidArgument "send" 1 "a name" "literal"), inGreeter.snapshot) := by
  have hmarked : CallSite.target ⟨"core#define_method", 2, 0⟩ = "define_method" := by
    decide +kernel
  have hplain : CallSite.target ⟨"define_method", 1, 0⟩ = "define_method" := by
    decide +kernel
  have hboth (name : Literal) := view_run_stacked_blocked .instanceSide (by rfl) hmarked hplain
    (code_stackedGreeting name) (code_blockedGreeting name) 1 inGreeter
  refine ⟨(hboth (.symbol "greet")).2 ?_, by decide +kernel,
    (hboth (.integer 7)).1 _ ⟨_, rfl, rfl, rfl⟩⟩
  rintro left ⟨receiver, -, -, hname⟩
  cases hname

end Machine

end ClassIndex
