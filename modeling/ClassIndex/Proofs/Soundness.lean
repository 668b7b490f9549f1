import ClassIndex.Proofs.Errands
import ClassIndex.Proofs.Isolation
import ClassIndex.Proofs.StackDiscipline
import Mathlib.Data.List.Basic

/-!
# Well-formed code runs without faults

The stack discipline is sound.  A well-formed sequence, run with enough levels to go down, comes to
an end; if that is a failure, some processor failed, and never the machine itself
(`runProgram_of_wellFormed`).  The body of a method may be a value that was popped at run time, so
the invariant `Holds` also speaks about the sequences among the values of a body.  They all come
from its code, as long as no processor yields a sequence and no scope is one.
-/

namespace ClassIndex

/-! ## Processors and their replies -/

namespace Processors

variable {σ : Type}

/-- No processor yields a sequence. -/
def NoSequences (processors : Processors σ) : Prop :=
  ∀ opcode qualifier entry, processors.find? opcode qualifier = some entry →
    ∀ arguments host body after,
      (entry.processor arguments).run.run host ≠ (.ok (.sequence body), after)

/-- Some processor failed with that error, and the host is as it left it. -/
def Raises (processors : Processors σ) (error : RunError) (host : Host σ) : Prop :=
  ∃ opcode qualifier entry, processors.find? opcode qualifier = some entry ∧
    ∃ arguments before, (entry.processor arguments).run.run before = (.error error, host)

/-- A result that satisfies `Q`, or the error of a processor that left the host as it is. -/
def Answers {α : Type} (processors : Processors σ) (Q : α → Prop) :
    Except RunError α → Host σ → Prop
  | .ok value, _ => Q value
  | .error error, host => processors.Raises error host

/-- A declaration is answered by a value that is not a sequence, or by the error of a processor. -/
theorem dispatch_outcome {processors : Processors σ} (hprocessors : processors.NoSequences)
    {opcode : Opcode} {qualifier : Option String} {values : List Value} {host after : Host σ}
    {outcome : Except RunError Value}
    (h : (processors.dispatch opcode qualifier values).run.run host = (outcome, after)) :
    processors.Answers (fun value => value.sequence? = none) outcome after := by
  unfold dispatch at h
  split at h
  · cases h
    rfl
  · rename_i entry hentry
    cases outcome with
    | error error => exact ⟨opcode, qualifier, entry, hentry, _, host, h⟩
    | ok value =>
      cases value with
      | sequence body => exact absurd h (hprocessors _ _ _ hentry _ _ _ _)
      | _ => rfl

end Processors

namespace Reply

/-- The bodies in a reply satisfy `P`, and the entity that it defines is not itself a body. -/
def Admits (P : Sequence → Prop) : Reply → Prop
  | .nothing => True
  | .value given => ∀ body, given = .sequence body → P body
  | .definition entity body => entity.sequence? = none ∧ P body

variable {P : Sequence → Prop}

theorem admits_value {value : Value} (h : value.sequence? = none) :
    (Reply.value value).Admits P := by
  rintro body rfl
  cases h

theorem admits_ofMethod {method : Value} {body : Option Sequence} (h : method.sequence? = none)
    (hbody : ∀ inner, body = some inner → P inner) : (ofMethod method body).Admits P := by
  cases body with
  | none => exact admits_value h
  | some inner => exact ⟨h, hbody inner rfl⟩

end Reply

namespace Errand

variable {P : Sequence → Prop} {leaves : Nat}

/-- The reply to an errand leaves that many values and holds no body but those that satisfy `P`,
whatever value a processor yields that is not a sequence. -/
def Admits (P : Sequence → Prop) (leaves : Nat) : Errand → Prop
  | answer reply => reply.leaves = leaves ∧ reply.Admits P
  | ignore _ => leaves = 0
  | declare _ _ _ reply =>
    ∀ value, value.sequence? = none → (reply value).leaves = leaves ∧ (reply value).Admits P

theorem run_outcome {σ : Type} {processors : Processors σ} {errand : Errand} {host after : Host σ}
    {outcome : Except RunError Reply} (hprocessors : processors.NoSequences)
    (h : errand.Admits P leaves) (hrun : (errand.run processors).run.run host = (outcome, after)) :
    processors.Answers (fun reply => reply.leaves = leaves ∧ reply.Admits P) outcome after := by
  cases errand with
  | answer reply =>
    cases hrun
    exact h
  | ignore method =>
    cases hrun
    exact ⟨Eq.symm h, trivial⟩
  | declare opcode qualifier values reply =>
    rw [run_declare] at hrun
    rcases hdispatch : (processors.dispatch opcode qualifier values).run.run host with
      ⟨error | value, between⟩
    · rw [hdispatch] at hrun
      cases hrun
      exact Processors.dispatch_outcome hprocessors hdispatch
    · rw [hdispatch] at hrun
      cases hrun
      exact h value (Processors.dispatch_outcome hprocessors hdispatch)

/-- A method is pushed, or its body is run if a body was given. -/
theorem admits_ofMethod {opcode : Opcode} {qualifier : Option String} {values : List Value}
    {body : Option Sequence} (hbody : ∀ inner, body = some inner → P inner) :
    (declare opcode qualifier values fun method => .ofMethod method body).Admits P 1 :=
  fun _ hvalue => ⟨Reply.leaves_ofMethod _ _, Reply.admits_ofMethod hvalue hbody⟩

end Errand

theorem Value.eq_of_sequence? {value : Value} {body : Sequence}
    (h : value.sequence? = some body) : value = .sequence body := by
  cases value with
  | sequence given =>
    cases h
    rfl
  | _ => cases h

namespace Command

variable {P : Sequence → Prop} {self root : Value} {taken : List Value}

theorem errand_defineMethod_admits (side : MethodSide)
    (hlength : taken.length = (defineMethod side).takes)
    (htaken : ∀ body, .sequence body ∈ taken → P body) :
    ((defineMethod side).errand self root taken).Admits P 1 := by
  cases side with
  | instanceSide =>
    obtain ⟨body, name, rfl⟩ := List.length_eq_two.1 hlength
    refine Errand.admits_ofMethod fun inner hinner => ?_
    exact htaken inner (Value.eq_of_sequence? hinner ▸ List.mem_cons_self)
  | classSide =>
    obtain ⟨body, name, receiver, rfl⟩ := List.length_eq_three.1 hlength
    refine Errand.admits_ofMethod fun inner hinner => ?_
    exact htaken inner (Value.eq_of_sequence? hinner ▸ List.mem_cons_self)

/-- The bodies in the reply to a command are those of the command and of the values that it took. -/
theorem errand_admits {command : Command} (hself : self.sequence? = none)
    (hroot : root.sequence? = none) (hcommand : command ≠ .leave)
    (hlength : taken.length = command.takes) (hbodies : ∀ body ∈ command.bodies, P body)
    (htaken : ∀ body, .sequence body ∈ taken → P body) :
    (command.errand self root taken).Admits P command.leaves := by
  cases command with
  | leave => exact absurd rfl hcommand
  | push value =>
    refine ⟨rfl, ?_⟩
    rintro body rfl
    exact hbodies body (List.mem_singleton_self body)
  | pushSelf => exact ⟨rfl, Reply.admits_value hself⟩
  | pushRoot => exact ⟨rfl, Reply.admits_value hroot⟩
  | ignoreCall method => exact rfl
  | discard =>
    obtain ⟨value, rfl⟩ := List.length_eq_one_iff.1 hlength
    exact ⟨rfl, trivial⟩
  | refresh =>
    obtain ⟨value, rfl⟩ := List.length_eq_one_iff.1 hlength
    refine ⟨rfl, ?_⟩
    rintro body rfl
    exact htaken body (List.mem_singleton_self _)
  | readConstant name =>
    obtain ⟨enclosing, rfl⟩ := List.length_eq_one_iff.1 hlength
    exact fun _ hvalue => ⟨rfl, Reply.admits_value hvalue⟩
  | defineClass name body flags =>
    obtain ⟨superclass, enclosing, rfl⟩ := List.length_eq_two.1 hlength
    exact fun _ hvalue => ⟨rfl, hvalue, hbodies body (List.mem_singleton_self body)⟩
  | defineMethod side => exact errand_defineMethod_admits side hlength htaken
  | defineFromBlock side block =>
    obtain ⟨name, receiver, rfl⟩ := List.length_eq_two.1 hlength
    refine Errand.admits_ofMethod ?_
    rintro inner rfl
    exact hbodies inner (List.mem_singleton_self inner)
  | findMethod side =>
    obtain ⟨name, receiver, rfl⟩ := List.length_eq_two.1 hlength
    exact fun _ hvalue => ⟨rfl, Reply.admits_value hvalue⟩
  | mixIn kind =>
    obtain ⟨source, receiver, rfl⟩ := List.length_eq_two.1 hlength
    exact fun _ _ => ⟨rfl, trivial⟩

/-- The host's reply to a command leaves as many values as the command should, and holds no body but
those of the command and of the values that it took. -/
theorem perform_outcome {σ : Type} {processors : Processors σ} {command : Command}
    {host after : Host σ} {outcome : Except RunError Reply}
    (hprocessors : processors.NoSequences) (hself : self.sequence? = none)
    (hroot : root.sequence? = none) (hcommand : command ≠ .leave)
    (hlength : taken.length = command.takes) (hbodies : ∀ body ∈ command.bodies, P body)
    (htaken : ∀ body, .sequence body ∈ taken → P body)
    (h : (command.perform processors self root taken).run.run host = (outcome, after)) :
    processors.Answers (fun reply => reply.leaves = command.leaves ∧ reply.Admits P) outcome
      after := by
  rw [perform_eq] at h
  exact Errand.run_outcome hprocessors
    (errand_admits hself hroot hcommand hlength hbodies htaken) h

end Command

/-! ## The values of a body -/

/-- Above `below` there are `height` values, and every body among them satisfies `P`. -/
def Holds (P : Sequence → Prop) (below : List Value) (height : Nat) (values : List Value) : Prop :=
  ∃ own, values = own ++ below ∧ own.length = height ∧ ∀ body, .sequence body ∈ own → P body

namespace Holds

variable {P : Sequence → Prop} {below values : List Value} {height count : Nat}

theorem nil (P : Sequence → Prop) (below : List Value) : Holds P below 0 below :=
  ⟨[], rfl, rfl, nofun⟩

theorem suffix (h : Holds P below height values) : below <:+ values := by
  obtain ⟨own, rfl, -, -⟩ := h
  exact List.suffix_append own below

theorem length_eq (h : Holds P below height values) : values.length = height + below.length := by
  obtain ⟨own, rfl, rfl, -⟩ := h
  exact List.length_append

theorem drop (h : Holds P below height values) (hcount : count ≤ height) :
    Holds P below (height - count) (values.drop count) := by
  obtain ⟨own, rfl, rfl, hown⟩ := h
  refine ⟨own.drop count, List.drop_append_of_le_length hcount, List.length_drop, ?_⟩
  exact fun body hbody => hown body (List.mem_of_mem_drop hbody)

theorem mem_take (h : Holds P below height values) (hcount : count ≤ height) :
    ∀ body, .sequence body ∈ values.take count → P body := by
  obtain ⟨own, rfl, rfl, hown⟩ := h
  intro body hbody
  rw [List.take_append_of_le_length hcount] at hbody
  exact hown body (List.mem_of_mem_take hbody)

theorem cons (h : Holds P below height values) {value : Value}
    (hvalue : ∀ body, value = .sequence body → P body) :
    Holds P below (height + 1) (value :: values) := by
  obtain ⟨own, rfl, rfl, hown⟩ := h
  refine ⟨value :: own, rfl, rfl, fun body hbody => ?_⟩
  rcases List.mem_cons.1 hbody with hhead | htail
  · exact hvalue body hhead.symm
  · exact hown body htail

end Holds

namespace Memory

/-- No scope is a sequence. -/
def PlainScopes (memory : Memory) : Prop :=
  ∀ scope ∈ memory.scopes, scope.sequence? = none

variable {memory : Memory}

theorem PlainScopes.self (h : memory.PlainScopes) : memory.self.sequence? = none := by
  unfold Memory.self
  rcases hhead : memory.scopes.head? with _ | scope
  · rfl
  · exact h scope (List.mem_of_head? hhead)

theorem PlainScopes.root (h : memory.PlainScopes) : memory.root.sequence? = none := by
  unfold Memory.root
  rcases hlast : memory.scopes.getLast? with _ | scope
  · rfl
  · exact h scope (List.mem_of_getLast? hlast)

theorem Inside.plainScopes {before : Memory} {scope : Value} (h : before.Inside scope memory)
    (hbefore : before.PlainScopes) (hscope : scope.sequence? = none) : memory.PlainScopes := by
  intro other hother
  rw [h.scopes] at hother
  rcases List.mem_cons.1 hother with rfl | hother
  · exact hscope
  · exact hbefore other hother

end Memory

/-! ## Runs -/

namespace Machine

variable {σ : Type}

/-- A way to run bodies by which those that satisfy `P` come to an end, give back the values that
they found, and fail only if a processor does. -/
def Sound (processors : Processors σ) (P : Sequence → Prop) (nested : Nested σ) : Prop :=
  ∀ (entity : Value) (body : Sequence) (machine : Machine σ), entity.sequence? = none → P body →
    machine.memory.PlainScopes →
      ∃ result after, (nested entity body).Ends machine result after ∧
        machine.memory.Isolated result after.memory ∧
        processors.Answers (fun _ => True) result after.host

section Bodies

variable {processors : Processors σ} {nested : Nested σ} {P : Sequence → Prop}
  {machine : Machine σ} {below : List Value} {height : Nat}

/-- A reply leaves its values on those that are there, or a processor fails in its body. -/
theorem settle_of_admits (machine : Machine σ) {reply : Reply} (hnested : Sound processors P nested)
    (hreply : reply.Admits P) (hscopes : machine.memory.PlainScopes)
    (h : Holds P below height machine.memory.values) :
    ∃ result after, (settle nested reply).Ends machine result after ∧
      below <:+ after.memory.values ∧
      processors.Answers (fun _ => Holds P below (height + reply.leaves) after.memory.values)
        result after.host := by
  cases reply with
  | nothing => exact ⟨.ok (), machine, rfl, h.suffix, h⟩
  | value value =>
    have hcons := h.cons hreply
    exact ⟨.ok (), _, RunM.ends_push_iff.2 ⟨rfl, rfl⟩, hcons.suffix, hcons⟩
  | definition entity body =>
    obtain ⟨result, between, hends, hisolated, hanswers⟩ :=
      hnested entity body machine hreply.1 hreply.2 hscopes
    cases result with
    | error error =>
      refine ⟨.error error, between, ends_runEntityWith_iff.2 (Or.inl ⟨error, hends, rfl⟩), ?_,
        hanswers⟩
      rw [show between.memory.values = _ from hisolated]
      exact h.suffix
    | ok value =>
      replace hisolated : between.memory.values = value :: machine.memory.values := hisolated
      have hvalues : ((between.memory.dropping 1).push entity).values =
          entity :: machine.memory.values := by
        rw [Memory.push, Memory.dropping, hisolated, List.drop_one, List.tail_cons]
      have hcons : Holds P below (height + 1) ((between.memory.dropping 1).push entity).values := by
        rw [hvalues]
        exact h.cons (Reply.admits_value hreply.1)
      refine ⟨.ok (), { between with memory := (between.memory.dropping 1).push entity },
        ends_runEntityWith_iff.2 (Or.inr ⟨value, between, hends, ?_⟩), hcons.suffix, hcons⟩
      rw [if_neg (by rw [hisolated]; exact List.cons_ne_nil _ _)]
      exact ⟨rfl, rfl⟩

/-- A command that finds its values changes their number as it should, or a processor fails. -/
theorem step_of_holds {instruction : Instruction} {command : Command}
    (hprocessors : processors.NoSequences) (hnested : Sound processors P nested)
    (hdecoded : instruction.command? = some (.ok command)) (hcommand : command ≠ .leave)
    (hbodies : ∀ body ∈ command.bodies, P body) (htakes : command.takes ≤ height)
    (hscopes : machine.memory.PlainScopes) (h : Holds P below height machine.memory.values) :
    ∃ result after, (step processors nested instruction).Ends machine result after ∧
      below <:+ after.memory.values ∧
      processors.Answers (fun flow => flow = .next ∧
        Holds P below (height - command.takes + command.leaves) after.memory.values)
        result after.host := by
  have hdepth : command.takes ≤ machine.memory.depth := by
    rw [Memory.depth, h.length_eq]
    omega
  rcases hperform : (command.perform processors machine.memory.self machine.memory.root
    (machine.memory.values.take command.takes)).run.run
      (machine.host.reporting (.running instruction)) with ⟨outcome, host⟩
  have hprepare : (prepare processors command).Ends (machine.reporting (.running instruction))
      outcome ⟨machine.memory.dropping command.takes, host⟩ := by
    refine ends_prepare_iff.2 ⟨rfl, ?_⟩
    rw [memory_reporting, if_pos hdepth]
    exact hperform
  have hanswers := Command.perform_outcome hprocessors hscopes.self hscopes.root hcommand
    (by rw [List.length_take]; exact Nat.min_eq_left hdepth) hbodies (h.mem_take htakes) hperform
  have hdropped := h.drop htakes
  cases outcome with
  | error error =>
    exact ⟨.error error, _, (StepEnds.refused hdecoded hcommand hprepare).ends,
      hdropped.suffix, hanswers⟩
  | ok reply =>
    obtain ⟨hleaves, hadmits⟩ := hanswers
    obtain ⟨result, after, hsettle, hsuffix, hanswers⟩ :=
      settle_of_admits ⟨machine.memory.dropping command.takes, host⟩ hnested hadmits hscopes
        hdropped
    rw [hleaves] at hanswers
    cases result with
    | error error =>
      exact ⟨.error error, after, (StepEnds.failed hdecoded hcommand hprepare hsettle).ends,
        hsuffix, hanswers⟩
    | ok _ =>
      exact ⟨.ok .next, after, (StepEnds.settled hdecoded hcommand hprepare hsettle).ends,
        hsuffix, rfl, hanswers⟩

/-- The code comes to an end above the values of `before`, with one value of its own unless a
processor fails. -/
def Completes (processors : Processors σ) (nested : Nested σ) (before : Memory)
    (code : List Instruction) (machine : Machine σ) : Prop :=
  ∃ outcome after, (runCode processors nested code).Ends machine outcome after ∧
    before.values <:+ after.memory.values ∧
    processors.Answers (fun _ => after.memory.depth = before.depth + 1) outcome after.host

theorem completes_nil {before : Memory} (h : Holds P before.values 1 machine.memory.values) :
    Completes processors nested before [] machine := by
  refine ⟨.ok (), machine, rfl, h.suffix, ?_⟩
  show machine.memory.values.length = before.values.length + 1
  rw [h.length_eq, Nat.add_comm]

section Cons

variable {instruction : Instruction} {rest : List Instruction} {before : Memory}

theorem completes_of_next {between : Machine σ}
    (hstep : (step processors nested instruction).Ends machine (.ok .next) between)
    (hrest : Completes processors nested before rest between) :
    Completes processors nested before (instruction :: rest) machine := by
  obtain ⟨outcome, after, hends, hafter⟩ := hrest
  exact ⟨outcome, after,
    ends_runCode_cons_iff.2 (Or.inr (Or.inr ⟨between, hstep, hends⟩)), hafter⟩

/-- A body with one value of its own can be left. -/
theorem completes_of_leave {scope : Value} (hdecoded : instruction.command? = some (.ok .leave))
    (hinside : before.Inside scope machine.memory)
    (h : Holds P before.values 1 machine.memory.values) :
    Completes processors nested before (instruction :: rest) machine := by
  have hdepth : machine.memory.depth = before.depth + 1 := by
    rw [Memory.depth, h.length_eq, Nat.add_comm, Memory.depth]
  obtain ⟨value, left, hleave⟩ := Memory.exists_leave_of_inside hinside hdepth
  have hvalues := Memory.values_of_leave hleave
  refine ⟨.ok (), _, ends_runCode_cons_iff.2
    (Or.inr (Or.inl ⟨(StepEnds.left hdecoded hleave).ends, rfl⟩)), ?_, ?_⟩
  · show before.values <:+ left.values
    rw [hvalues]
    exact h.suffix
  · show left.values.length = before.depth + 1
    rw [hvalues]
    exact hdepth

/-- A command is followed by the rest of the code, unless a processor fails. -/
theorem completes_of_command {scope : Value} {command : Command}
    (hprocessors : processors.NoSequences) (hnested : Sound processors P nested)
    (hframes : Balanced nested) (hbefore : before.PlainScopes) (hscope : scope.sequence? = none)
    (hdecoded : instruction.command? = some (.ok command)) (hcommand : command ≠ .leave)
    (hbodies : ∀ body ∈ command.bodies, P body) (htakes : command.takes ≤ height)
    (hinside : before.Inside scope machine.memory)
    (h : Holds P before.values height machine.memory.values)
    (hrest : ∀ between : Machine σ, before.Inside scope between.memory →
      Holds P before.values (height - command.takes + command.leaves) between.memory.values →
        Completes processors nested before rest between) :
    Completes processors nested before (instruction :: rest) machine := by
  obtain ⟨result, between, hstep, hsuffix, hanswers⟩ := step_of_holds hprocessors hnested hdecoded
    hcommand hbodies htakes (hinside.plainScopes hbefore hscope) h
  cases result with
  | error error =>
    exact ⟨.error error, between, ends_runCode_cons_iff.2 (Or.inl ⟨error, hstep, rfl⟩), hsuffix,
      hanswers⟩
  | ok flow =>
    obtain ⟨rfl, hholds⟩ := hanswers
    rcases step_of_inside hframes hinside hstep with ⟨habsurd, -⟩ | ⟨-, hbetween⟩
    · cases habsurd
    · exact completes_of_next hstep (hrest between hbetween hholds)

end Cons

/-- Balanced code ends with one value of its own, or a processor fails. -/
theorem runCode_of_balanced {before : Memory} {scope : Value} {code : List Instruction}
    (hprocessors : processors.NoSequences) (hnested : Sound processors P nested)
    (hframes : Balanced nested) (hbefore : before.PlainScopes) (hscope : scope.sequence? = none)
    (hcode : Instruction.balanced height code)
    (hbodies : ∀ body ∈ Instruction.bodies code, P body)
    (hinside : before.Inside scope machine.memory)
    (h : Holds P before.values height machine.memory.values) :
    Completes processors nested before code machine := by
  -- The induction follows `balanced`: the height and the machine change with each instruction.
  induction code generalizing height machine with
  | nil =>
    obtain rfl : height = 1 := beq_iff_eq.1 hcode
    exact completes_nil h
  | cons instruction rest ih =>
    unfold Instruction.balanced at hcode
    unfold Instruction.bodies at hbodies
    rcases hdecoded : instruction.command? with _ | error | command
    · simp only [hdecoded] at hcode hbodies
      exact completes_of_next (StepEnds.skipped hdecoded).ends (ih hcode hbodies hinside h)
    · simp only [hdecoded] at hcode
      cases hcode
    · by_cases hcommand : command = .leave
      · subst hcommand
        simp only [hdecoded, flowAfter] at hcode
        obtain rfl : height = 1 := beq_iff_eq.1 hcode
        exact completes_of_leave hdecoded hinside h
      · simp only [hdecoded, flowAfter_of_ne_leave hcommand, Bool.and_eq_true,
          decide_eq_true_eq] at hcode hbodies
        obtain ⟨htakes, hcode⟩ := hcode
        rw [List.forall_mem_append] at hbodies
        exact completes_of_command hprocessors hnested hframes hbefore hscope hdecoded hcommand
          hbodies.1 htakes hinside h fun between => ih hcode hbodies.2

end Bodies

/-- What can be run with a number of levels to go down: well-formed sequences that hold no more
sequences than that. -/
def Fits (levels : Nat) (body : Sequence) : Prop :=
  body.WellFormed ∧ body.unfold.length ≤ levels

theorem sound_succ {processors : Processors σ} {levels : Nat}
    (hprocessors : processors.NoSequences)
    (h : Sound processors (Fits levels) (runInFrame processors levels)) :
    Sound processors (Fits (levels + 1)) (runInFrame processors (levels + 1)) := by
  rintro scope body machine hscope ⟨hbody, hlevels⟩ hscopes
  have hframes := balanced_runInFrame processors levels
  have hbodies : ∀ inner ∈ body.bodies, Fits levels inner := by
    intro inner hinner
    have hlength := Sequence.length_unfold_lt_of_mem_bodies hinner
    exact ⟨hbody.body hinner, by omega⟩
  have hinside := inside_entered machine scope body
  obtain ⟨outcome, inner, hcode, hsuffix, hanswers⟩ := runCode_of_balanced hprocessors h hframes
    hscopes hscope (Sequence.wellFormed_iff.1 hbody).1 hbodies hinside
    (Holds.nil (Fits levels) machine.memory.values)
  have hend := bodyEnd_of_runCode hframes hinside hcode
  have hisolated := (Memory.finish_of_bodyEnd hend).2.isolated_iff.2 hsuffix
  refine ⟨_, _, ends_runInFrame_succ_iff.2 ⟨outcome, inner, hcode, rfl, rfl⟩, hisolated, ?_⟩
  cases outcome with
  | error error => exact hanswers
  | ok _ =>
    obtain ⟨value, left, hfinish⟩ := Memory.exists_finish_of_bodyEnd hend hanswers
    rw [hfinish]
    trivial

/-- Well-formed sequences run without faults, given enough levels. -/
theorem sound_runInFrame {processors : Processors σ} (hprocessors : processors.NoSequences)
    (levels : Nat) : Sound processors (Fits levels) (runInFrame processors levels) := by
  induction levels with
  | zero =>
    rintro scope body machine - ⟨-, hlevels⟩ -
    rw [body.length_unfold] at hlevels
    cases hlevels
  | succ levels ih => exact sound_succ hprocessors ih

/-- The stack discipline is sound: a well-formed program comes to an end on every machine that has
no sequence among its scopes, if no processor yields a sequence.  It leaves its result on top of the
values that were there, or those values alone and an error; and that error is one that a processor
ended with, and never one of the machine itself. -/
theorem runProgram_of_wellFormed {processors : Processors σ} {levels : Nat} {body : Sequence}
    {machine : Machine σ} (hprocessors : processors.NoSequences) (hbody : body.WellFormed)
    (hlevels : body.unfold.length ≤ levels)
    (hscopes : ∀ scope ∈ machine.memory.scopes, scope.sequence? = none) :
    ∃ result after, (runProgram processors levels body).Ends machine result after ∧
      match result with
      | .ok value => after.memory.values = value :: machine.memory.values
      | .error error =>
        after.memory.values = machine.memory.values ∧ processors.Raises error after.host := by
  obtain ⟨result, after, hends, hisolated, hanswers⟩ :=
    sound_runInFrame hprocessors levels machine.memory.root body machine
      (Memory.PlainScopes.root hscopes) ⟨hbody, hlevels⟩ hscopes
  refine ⟨result, after, hends, ?_⟩
  cases result with
  | ok value => exact hisolated
  | error error => exact ⟨hisolated, hanswers⟩

/-- Without processors, the demonstration leaves its result on the value that was there. -/
theorem runProgram_of_wellFormed_demo :
    ∃ (result : Except RunError Value) (after : Machine Unit),
      (runProgram Processors.empty 6 Demo.program).Ends
        ⟨(Memory.ofRoot .nil).push (.literal (.integer 7)), ⟨(), #[]⟩⟩ result after ∧
      ∃ value, result = .ok value ∧ after.memory.values = [value, .literal (.integer 7)] := by
  have hprocessors : (Processors.empty : Processors Unit).NoSequences := by
    intro opcode qualifier entry hentry
    cases qualifier <;> cases hentry
  have hbody : Demo.program.WellFormed := by decide +kernel
  have hlevels : Demo.program.unfold.length ≤ 6 := by decide +kernel
  have hscopes : ∀ scope ∈ (⟨(Memory.ofRoot .nil).push (.literal (.integer 7)), ⟨(), #[]⟩⟩ :
      Machine Unit).memory.scopes, scope.sequence? = none := by
    intro scope hscope
    rw [List.mem_singleton.1 hscope]
    rfl
  obtain ⟨result, after, hends, hresult⟩ :=
    runProgram_of_wellFormed hprocessors hbody hlevels hscopes
  cases result with
  | ok value => exact ⟨.ok value, after, hends, value, rfl, hresult⟩
  | error error =>
    obtain ⟨-, opcode, qualifier, entry, hentry, -⟩ := hresult
    cases qualifier <;> cases hentry

end Machine

end ClassIndex
