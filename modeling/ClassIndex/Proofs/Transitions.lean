import ClassIndex.Proofs.Actions
import ClassIndex.Proofs.Balance

/-!
# Successful runs

What a program does to its machine when nothing goes wrong, apart from the events that are reported.
A `Snapshot` is what counts of a machine: its memory and the state of its host.  `Goes` says that
code gets from one snapshot to another; there is one rule for each command that a declaration is
made of, and `enters_of_goes` for a body that is run to its end.
-/

namespace ClassIndex

/-- The memory of a machine and the state of its host. -/
structure Snapshot (σ : Type) where
  memory : Memory
  state : σ

theorem Memory.ext_stacks {first second : Memory} (hvalues : first.values = second.values)
    (hscopes : first.scopes = second.scopes) (hframes : first.frames = second.frames) :
    first = second := by
  rcases first with ⟨values, scopes, hne, frames⟩
  cases hvalues
  cases hscopes
  cases hframes
  rfl

namespace Machine

variable {σ : Type}

/-- What counts of a machine. -/
def snapshot (machine : Machine σ) : Snapshot σ :=
  ⟨machine.memory, machine.host.state⟩

/-- From `before`, the code gets to `rest` with `after`. -/
def Goes (processors : Processors σ) (nested : Nested σ) (code : List Instruction)
    (before : Snapshot σ) (rest : List Instruction) (after : Snapshot σ) : Prop :=
  ∀ machine : Machine σ, machine.snapshot = before →
    ∃ final, Reaches processors nested code machine rest final ∧ final.snapshot = after

/-- From `before`, a reply is settled with `after`. -/
def Settles (nested : Nested σ) (reply : Reply) (before after : Snapshot σ) : Prop :=
  ∀ machine : Machine σ, machine.snapshot = before →
    ∃ final, (settle nested reply).Ends machine (.ok ()) final ∧ final.snapshot = after

/-- Run on `memory`, a body leaves nil and changes the state of the host. -/
def Enters (nested : Nested σ) (scope : Value) (body : Sequence) (memory : Memory)
    (before after : σ) : Prop :=
  ∀ machine : Machine σ, machine.snapshot = ⟨memory, before⟩ →
    ∃ final, (nested scope body).Ends machine (.ok .nil) final ∧
      final.snapshot = ⟨memory.push .nil, after⟩

section Rules

variable {processors : Processors σ} {nested : Nested σ}

theorem Goes.refl (code : List Instruction) (before : Snapshot σ) :
    Goes processors nested code before code before :=
  fun machine h => ⟨machine, .here, h⟩

theorem Goes.trans {code rest final : List Instruction} {before between after : Snapshot σ}
    (h₁ : Goes processors nested code before rest between)
    (h₂ : Goes processors nested rest between final after) :
    Goes processors nested code before final after := by
  intro machine h
  obtain ⟨middle, hmiddle, hbetween⟩ := h₁ machine h
  obtain ⟨last, hlast, hafter⟩ := h₂ middle hbetween
  exact ⟨last, hmiddle.trans hlast, hafter⟩

/-! ## Replies -/

theorem settles_nothing (before : Snapshot σ) : Settles nested .nothing before before :=
  fun machine h => ⟨machine, rfl, h⟩

theorem settles_value (value : Value) (memory : Memory) (state : σ) :
    Settles nested (.value value) ⟨memory, state⟩ ⟨memory.push value, state⟩ := by
  intro machine h
  cases h
  exact ⟨_, RunM.ends_push_iff.2 ⟨rfl, rfl⟩, rfl⟩

/-- The entity takes the place of the nil that its body leaves. -/
theorem settles_definition {entity : Value} {body : Sequence} {memory : Memory} {before after : σ}
    (h : Enters nested entity body memory before after) :
    Settles nested (.definition entity body) ⟨memory, before⟩ ⟨memory.push entity, after⟩ := by
  intro machine hmachine
  obtain ⟨between, hends, hbetween⟩ := h machine hmachine
  have hmemory : between.memory = memory.push .nil := congrArg Snapshot.memory hbetween
  have hstate : between.host.state = after := congrArg Snapshot.state hbetween
  refine ⟨{ between with memory := (between.memory.dropping 1).push entity },
    ends_runEntityWith_iff.2 (Or.inr ⟨.nil, between, hends, ?_⟩), ?_⟩
  · have hvalues : between.memory.values ≠ [] := by
      rw [hmemory]
      exact List.cons_ne_nil _ _
    rw [if_neg hvalues]
    exact ⟨rfl, rfl⟩
  · unfold snapshot
    rw [hmemory, hstate]
    rfl

/-! ## Commands -/

/-- An instruction whose command finds its values is carried out as the host replies. -/
theorem goes_of_perform {instruction : Instruction} {rest : List Instruction} {command : Command}
    {reply : Reply} {memory : Memory} {state between : σ} {after : Snapshot σ}
    (hdecoded : instruction.command? = some (.ok command)) (hcommand : command ≠ .leave)
    (htakes : command.takes ≤ memory.depth)
    (hperform : (command.perform processors memory.self memory.root
      (memory.values.take command.takes)).Yields state reply between)
    (hsettles : Settles nested reply ⟨memory.dropping command.takes, between⟩ after) :
    Goes processors nested (instruction :: rest) ⟨memory, state⟩ rest after := by
  intro machine h
  cases h
  obtain ⟨host, hrun, hhost⟩ := hperform (machine.host.reporting (.running instruction)) rfl
  have hprepare : (prepare processors command).Ends (machine.reporting (.running instruction))
      (.ok reply) ⟨machine.memory.dropping command.takes, host⟩ := by
    refine ends_prepare_iff.2 ⟨rfl, ?_⟩
    rw [memory_reporting, if_pos htakes]
    exact hrun
  obtain ⟨final, hsettle, hfinal⟩ := hsettles ⟨machine.memory.dropping command.takes, host⟩
    (by rw [snapshot, hhost])
  exact ⟨final, .next (StepEnds.settled hdecoded hcommand hprepare hsettle).ends .here, hfinal⟩

section Commands

variable {instruction : Instruction} {rest : List Instruction} {memory : Memory}
  {state between after : σ}

theorem goes_push {value : Value} (h : instruction.command? = some (.ok (.push value))) :
    Goes processors nested (instruction :: rest) ⟨memory, state⟩ rest
      ⟨memory.push value, state⟩ :=
  goes_of_perform h nofun (Nat.zero_le _) (ActionM.yields_pure _) (settles_value _ _ _)

theorem goes_pushSelf (h : instruction.command? = some (.ok .pushSelf)) :
    Goes processors nested (instruction :: rest) ⟨memory, state⟩ rest
      ⟨memory.push memory.self, state⟩ :=
  goes_of_perform h nofun (Nat.zero_le _) (ActionM.yields_pure _) (settles_value _ _ _)

theorem goes_discard {value : Value} (h : instruction.command? = some (.ok .discard)) :
    Goes processors nested (instruction :: rest) ⟨memory.push value, state⟩ rest
      ⟨memory, state⟩ :=
  goes_of_perform h nofun (Nat.le_add_left _ _) (ActionM.yields_pure _) (settles_nothing _)

theorem goes_readConstant {name enclosing value : Value}
    (h : instruction.command? = some (.ok (.readConstant name)))
    (hdispatch : (processors.dispatch .getConstant none [name, enclosing]).Yields state value
      after) :
    Goes processors nested (instruction :: rest) ⟨memory.push enclosing, state⟩ rest
      ⟨memory.push value, after⟩ :=
  goes_of_perform h nofun (Nat.le_add_left _ _) (hdispatch.bind (ActionM.yields_pure _))
    (settles_value value memory after)

theorem goes_defineClass {name flags superclass enclosing entity : Value} {body : Sequence}
    (h : instruction.command? = some (.ok (.defineClass name body flags)))
    (hdispatch : (processors.dispatch .defineClass none
      [name, .sequence body, superclass, enclosing, flags]).Yields state entity between)
    (hbody : Enters nested entity body memory between after) :
    Goes processors nested (instruction :: rest)
      ⟨(memory.push enclosing).push superclass, state⟩ rest ⟨memory.push entity, after⟩ :=
  goes_of_perform h nofun (Nat.le_add_left _ _) (hdispatch.bind (ActionM.yields_pure _))
    (settles_definition hbody)

theorem goes_defineMethod_instanceSide {name method : Value} {body : Sequence}
    (h : instruction.command? = some (.ok (.defineMethod .instanceSide)))
    (hdispatch : (processors.dispatch .optSendWithoutBlock MethodSide.instanceSide.definer
      [memory.self, name, .sequence body]).Yields state method between)
    (hbody : Enters nested method body memory between after) :
    Goes processors nested (instruction :: rest) ⟨(memory.push name).push (.sequence body), state⟩
      rest ⟨memory.push method, after⟩ :=
  goes_of_perform h nofun (Nat.le_add_left _ _) (hdispatch.bind (ActionM.yields_pure _))
    (settles_definition hbody)

theorem goes_defineMethod_classSide {name receiver method : Value} {body : Sequence}
    (h : instruction.command? = some (.ok (.defineMethod .classSide)))
    (hdispatch : (processors.dispatch .optSendWithoutBlock MethodSide.classSide.definer
      [receiver, name, .sequence body]).Yields state method between)
    (hbody : Enters nested method body memory between after) :
    Goes processors nested (instruction :: rest)
      ⟨((memory.push receiver).push name).push (.sequence body), state⟩ rest
      ⟨memory.push method, after⟩ :=
  goes_of_perform h nofun (Nat.le_add_left _ _) (hdispatch.bind (ActionM.yields_pure _))
    (settles_definition hbody)

theorem goes_mixIn {kind : MixinKind} {receiver source value : Value}
    (h : instruction.command? = some (.ok (.mixIn kind)))
    (hdispatch : (processors.dispatch .optSendWithoutBlock kind.name [receiver, source]).Yields
      state value after) :
    Goes processors nested (instruction :: rest) ⟨(memory.push receiver).push source, state⟩ rest
      ⟨memory, after⟩ :=
  goes_of_perform h nofun (Nat.le_add_left _ _) (hdispatch.bind (ActionM.yields_pure _))
    (settles_nothing _)

end Commands

/-! ## Bodies -/

/-- How the body of a declaration ends. -/
def bodyEnd : List Instruction :=
  [⟨.putNil, []⟩, ⟨.leave, []⟩]

/-- Left with nil as its one value, a body gives back the memory with nil on top. -/
theorem enters_of_goes {levels : Nat} {scope : Value} {body : Sequence} {memory : Memory}
    {before after : σ}
    (h : Goes processors (runInFrame processors levels) body.code ⟨memory.enter scope, before⟩
      bodyEnd ⟨memory.enter scope, after⟩) :
    Enters (runInFrame processors (levels + 1)) scope body memory before after := by
  intro machine hmachine
  cases hmachine
  have hpush : Goes processors (runInFrame processors levels) bodyEnd
      ⟨machine.memory.enter scope, after⟩ [⟨.leave, []⟩]
      ⟨(machine.memory.enter scope).push .nil, after⟩ := goes_push rfl
  obtain ⟨last, hreaches, hlast⟩ := h.trans hpush (machine.entered scope body) rfl
  have hmemory : last.memory = (machine.memory.enter scope).push .nil :=
    congrArg Snapshot.memory hlast
  have hinside : machine.memory.Inside scope last.memory := by
    rw [hmemory]
    exact ⟨rfl, rfl⟩
  obtain ⟨value, left, hleave⟩ := Memory.exists_leave_of_inside hinside (by rw [hmemory]; rfl)
  obtain ⟨hsame, hvalues, -, -⟩ := Memory.leave_of_inside hinside hleave
  rw [hmemory] at hvalues
  obtain ⟨top, htop, hfinish⟩ := Memory.finish_of_sameFrames hsame
    ((congrArg List.length hvalues).trans rfl)
  rw [Memory.top?, hvalues] at htop
  cases htop
  have hcode := hreaches.ends (ends_runCode_cons_iff.2
    (Or.inr (Or.inl ⟨(StepEnds.left rfl hleave).ends, rfl⟩)))
  refine ⟨{ last.reporting (.running ⟨.leave, []⟩) with memory := left },
    ends_runInFrame_succ_iff.2 ⟨_, _, hcode, ?_, ?_⟩, ?_⟩
  · rw [hfinish]
  · rw [hfinish]
  · have hleft : left = machine.memory.push .nil :=
      Memory.ext_stacks hvalues hsame.scopes hsame.frames
    have hstate : last.host.state = after := congrArg Snapshot.state hlast
    rw [← hleft, ← hstate]
    rfl

end Rules

end Machine

end ClassIndex
