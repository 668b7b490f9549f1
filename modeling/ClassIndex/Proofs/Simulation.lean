import ClassIndex.Proofs.Errands
import ClassIndex.Proofs.Frames
import ClassIndex.Proofs.StackDiscipline
import Mathlib.Data.List.Forall2

/-!
# Simulations

Two machines run the same body.  A `Simulation` says which of their hosts and which of their values
are alike, and `follows_runInFrame` that the second machine then follows the first one to an end
that is alike: the same error, or values that are alike, on memories that are alike.  What has to be
shown for this is what the processors do (`Simulation.Lawful`).

The values of the second machine may stand on further values that the first machine does not have.
A first machine that runs out of values need not be followed then.  A second machine may also be
allowed to stop: to fail by itself, while the first one goes on.
-/

namespace ClassIndex

/-- The same error, or two results that are alike. -/
inductive Outcomes {α β : Type} (Alike : α → β → Prop) :
    Except RunError α → Except RunError β → Prop
  | ok {first : α} {second : β} (h : Alike first second) : Outcomes Alike (.ok first) (.ok second)
  | error (error : RunError) : Outcomes Alike (.error error) (.error error)

theorem Outcomes.map {α β α' β' : Type} {R : α → β → Prop} {R' : α' → β' → Prop} {f : α → α'}
    {g : β → β'} {first : Except RunError α} {second : Except RunError β}
    (h : Outcomes R first second) (hR : ∀ value other, R value other → R' (f value) (g other)) :
    Outcomes R' (first.map f) (second.map g) := by
  cases h with
  | ok h => exact .ok (hR _ _ h)
  | error error => exact .error error

/-- The mark of a frame on a stack that stands on further values. -/
def FrameMark.raised (height : Nat) (mark : FrameMark) : FrameMark :=
  { mark with depth := mark.depth + height }

/-! ## Memories -/

namespace Memory

/-- The stacks are alike, and the values of the second memory stand on `below`. -/
structure Alike (R : Value → Value → Prop) (below : List Value) (first second : Memory) : Prop where
  values : ∃ upper, second.values = upper ++ below ∧ List.Forall₂ R first.values upper
  scopes : List.Forall₂ R first.scopes second.scopes
  frames : second.frames = first.frames.map (·.raised below.length)

section Stacks

variable {α β : Type} {R : α → β → Prop}

theorem cut_append (height : Nat) (upper lower : List α) :
    cut (height + lower.length) (upper ++ lower) = cut height upper ++ lower := by
  unfold cut
  have hcount : (upper ++ lower).length - (height + lower.length) = upper.length - height := by
    rw [List.length_append]
    omega
  rw [hcount, List.drop_append_of_le_length (Nat.sub_le _ _)]

theorem forall₂_cut {first : List α} {second : List β} (h : List.Forall₂ R first second)
    (height : Nat) : List.Forall₂ R (cut height first) (cut height second) := by
  unfold cut
  rw [h.length_eq]
  exact List.forall₂_drop _ h

theorem rel_getLast? {first : List α} {second : List β} (h : List.Forall₂ R first second) :
    Option.Rel R first.getLast? second.getLast? := by
  have hreverse := List.rel_reverse h
  rw [← List.head?_reverse, ← List.head?_reverse]
  generalize first.reverse = first' at hreverse ⊢
  generalize second.reverse = second' at hreverse ⊢
  cases hreverse with
  | nil => exact .none
  | cons hhead _ => exact .some hhead

end Stacks

theorem alike_self {R : Value → Value → Prop} {memory : Memory}
    (hvalues : ∀ value ∈ memory.values, R value value)
    (hscopes : ∀ scope ∈ memory.scopes, R scope scope) : memory.Alike R [] memory where
  values := ⟨memory.values, (List.append_nil _).symm, List.forall₂_same.2 hvalues⟩
  scopes := List.forall₂_same.2 hscopes
  frames := (List.map_id' _).symm

namespace Alike

variable {R : Value → Value → Prop} {below : List Value} {first second : Memory}

theorem mono {R' : Value → Value → Prop} (h : Alike R below first second)
    (hR : ∀ value other, R value other → R' value other) : Alike R' below first second := by
  obtain ⟨upper, hvalues, hupper⟩ := h.values
  exact ⟨⟨upper, hvalues, hupper.imp hR⟩, h.scopes.imp hR, h.frames⟩

theorem depth_eq (h : Alike R below first second) :
    second.depth = first.depth + below.length := by
  obtain ⟨upper, hvalues, hupper⟩ := h.values
  rw [depth, depth, hvalues, List.length_append, hupper.length_eq]

theorem frameDepth_eq (h : Alike R below first second) : second.frameDepth = first.frameDepth := by
  rw [frameDepth, frameDepth, h.frames, List.length_map]

theorem scopeDepth_eq (h : Alike R below first second) : second.scopeDepth = first.scopeDepth :=
  h.scopes.length_eq.symm

theorem self (h : Alike R below first second) : R first.self second.self := by
  have hscopes := h.scopes
  unfold Memory.self
  rcases hfirst : first.scopes with _ | ⟨scope, rest⟩
  · exact absurd hfirst first.scopes_ne_nil
  · rw [hfirst] at hscopes
    obtain ⟨other, others, hscope, -, hsecond⟩ := List.forall₂_cons_left_iff.1 hscopes
    rw [hsecond]
    exact hscope

theorem root (h : Alike R below first second) : R first.root second.root := by
  unfold Memory.root
  have hlast := rel_getLast? h.scopes
  rcases hfirst : first.scopes.getLast? with _ | scope
  · exact absurd (List.getLast?_eq_none_iff.1 hfirst) first.scopes_ne_nil
  · rw [hfirst] at hlast
    rcases hsecond : second.scopes.getLast? with _ | other
    · rw [hsecond] at hlast
      cases hlast
    · rw [hsecond] at hlast
      cases hlast with
      | some hscope => exact hscope

theorem push (h : Alike R below first second) {value other : Value} (hvalue : R value other) :
    Alike R below (first.push value) (second.push other) := by
  obtain ⟨upper, hvalues, hupper⟩ := h.values
  refine ⟨⟨other :: upper, ?_, .cons hvalue hupper⟩, h.scopes, h.frames⟩
  show other :: second.values = other :: upper ++ below
  rw [hvalues, List.cons_append]

/-- Values are taken off both memories, as long as they are not taken from `below`. -/
theorem dropping (h : Alike R below first second) {count : Nat}
    (hcount : count ≤ first.depth ∨ below = []) :
    Alike R below (first.dropping count) (second.dropping count) := by
  obtain ⟨upper, hvalues, hupper⟩ := h.values
  refine ⟨⟨upper.drop count, ?_, List.forall₂_drop count hupper⟩, h.scopes, h.frames⟩
  show second.values.drop count = upper.drop count ++ below
  rw [hvalues]
  rcases hcount with hcount | rfl
  · exact List.drop_append_of_le_length (hupper.length_eq ▸ hcount)
  · rw [List.append_nil, List.append_nil]

theorem forall₂_take (h : Alike R below first second) {count : Nat} (hcount : count ≤ first.depth) :
    List.Forall₂ R (first.values.take count) (second.values.take count) := by
  obtain ⟨upper, hvalues, hupper⟩ := h.values
  rw [hvalues, List.take_append_of_le_length (hupper.length_eq ▸ hcount)]
  exact List.forall₂_take count hupper

theorem enter (h : Alike R below first second) {scope other : Value} (hscope : R scope other) :
    Alike R below (first.enter scope) (second.enter other) := by
  refine ⟨h.values, .cons hscope h.scopes, ?_⟩
  show second.mark :: second.frames = first.mark.raised below.length :: _
  have hmark : second.mark = first.mark.raised below.length := by
    rw [mark, mark, h.depth_eq, h.scopeDepth_eq]
    rfl
  rw [hmark, h.frames]

theorem cutScopes (h : Alike R below first second) (mark : FrameMark) :
    List.Forall₂ R (first.cutScopes mark).scopes
      (second.cutScopes (mark.raised below.length)).scopes :=
  forall₂_cut h.scopes _

/-- The top values are alike. Only a memory without values has none. -/
theorem top? (h : Alike R below first second) :
    (first.values = [] ∧ first.top? = none) ∨
      ∃ value other, first.top? = some value ∧ second.top? = some other ∧ R value other := by
  obtain ⟨upper, hvalues, hupper⟩ := h.values
  unfold Memory.top?
  rcases hfirst : first.values with _ | ⟨value, rest⟩
  · exact Or.inl ⟨rfl, rfl⟩
  · rw [hfirst] at hupper
    obtain ⟨other, others, hvalue, -, rfl⟩ := List.forall₂_cons_left_iff.1 hupper
    exact Or.inr ⟨value, other, rfl, by rw [hvalues]; rfl, hvalue⟩

/-! ### Leaving and finishing -/

/-- Leaving a frame does the same on both memories: marks and depths are raised alike, so the
comparison and the count of an imbalance come out the same. -/
theorem leave (h : Alike R below first second) :
    Outcomes (fun left other => R left.1 other.1 ∧ Alike R below left.2 other.2)
      first.leave second.leave := by
  have hframes := h.frames
  rcases hfirst : first.frames with _ | ⟨mark, rest⟩
  · rw [hfirst, List.map_nil] at hframes
    rw [Memory.leave, hfirst, Memory.leave, hframes]
    exact .error _
  · rw [hfirst, List.map_cons] at hframes
    rw [leave_of_frames hfirst, leave_of_frames hframes]
    have hdepth := h.depth_eq
    have hraised : (mark.raised below.length).depth = mark.depth + below.length := rfl
    by_cases hone : first.depth = mark.depth + 1
    · rw [if_pos hone, if_pos (by omega)]
      rcases h.top? with ⟨hempty, -⟩ | ⟨value, other, hvalue, hother, hR⟩
      · rw [depth, hempty] at hone
        cases hone
      · unfold Memory.top? at hvalue hother
        obtain ⟨others, hsecond⟩ := List.head?_eq_some_iff.1 hother
        obtain ⟨values, hvalues⟩ := List.head?_eq_some_iff.1 hvalue
        simp only [hsecond, hvalues]
        exact .ok ⟨hR, h.values, h.cutScopes mark, rfl⟩
    · rw [if_neg hone, if_neg (by omega)]
      have hfound : second.depth - (mark.raised below.length).depth = first.depth - mark.depth := by
        omega
      rw [hfound]
      exact .error _

theorem unwind (h : Alike R below first second) (level : Nat) :
    Alike R below (first.unwind level) (second.unwind level) := by
  have hmark : second.frames.reverse[level]? =
      first.frames.reverse[level]?.map (·.raised below.length) := by
    rw [h.frames, ← List.map_reverse, List.getElem?_map]
  unfold Memory.unwind
  rw [hmark]
  rcases first.frames.reverse[level]? with _ | mark
  · exact h
  · obtain ⟨upper, hvalues, hupper⟩ := h.values
    refine ⟨⟨cut mark.depth upper, ?_, forall₂_cut hupper _⟩, h.cutScopes mark, ?_⟩
    · show cut (mark.depth + below.length) second.values = _
      rw [hvalues, cut_append]
    · show cut level second.frames = (cut level first.frames).map _
      unfold cut
      rw [h.frames, List.length_map, List.map_drop]

theorem leaveAbove (h : Alike R below first second) (level : Nat) :
    Outcomes (Alike R below) (first.leaveAbove level) (second.leaveAbove level) := by
  unfold Memory.leaveAbove
  rw [h.frameDepth_eq]
  split
  · exact h.leave.map fun _ _ hleft => hleft.2
  · exact .ok h

/-- A body is finished alike on both memories, unless the first one has no value left. -/
theorem finish (h : Alike R below first second) (level : Nat) {outcome : Except RunError Unit}
    (hbelow : (first.finish level outcome).1 = .error .stackUnderflow → below = []) :
    Outcomes R (first.finish level outcome).1 (second.finish level outcome).1 ∧
      Alike R below (first.finish level outcome).2 (second.finish level outcome).2 := by
  rcases outcome with error | ⟨⟩
  · exact ⟨.error error, h.unwind level⟩
  · have hleave := h.leaveAbove level
    unfold Memory.finish at hbelow ⊢
    rcases hfirst : first.leaveAbove level with error | left <;>
      rcases hsecond : second.leaveAbove level with error' | left' <;>
      rw [hfirst, hsecond] at hleave
    · cases hleave
      exact ⟨.error error, h.unwind level⟩
    · cases hleave
    · cases hleave
    · cases hleave with
      | ok hleft =>
        simp only [hfirst, hleft.frameDepth_eq] at hbelow ⊢
        split
        · rename_i hlevel
          rw [if_pos hlevel] at hbelow
          rcases hleft.top? with ⟨hempty, htop⟩ | ⟨value, other, hvalue, hother, hR⟩
          · rw [htop] at hbelow ⊢
            have hnone : left'.top? = none := by
              obtain ⟨upper, hvalues, hupper⟩ := hleft.values
              rw [hempty] at hupper
              rw [Memory.top?, hvalues, List.forall₂_nil_left_iff.1 hupper, hbelow rfl]
              rfl
            rw [hnone]
            exact ⟨.error _, hleft.unwind level⟩
          · rw [hvalue, hother]
            exact ⟨.ok hR, hleft⟩
        · exact ⟨.error _, hleft.unwind level⟩

end Alike

end Memory

/-! ## Commands -/

namespace Value

/-- Neither a class nor a method, so that the value means the same on every host. -/
def IsPlain (value : Value) : Prop :=
  value.class? = none ∧ value.method? = none

end Value

namespace Command

/-- The values that a command brings along are plain. -/
def IsPlain : Command → Prop
  | push value | readConstant value => value.IsPlain
  | defineClass name _ flags => name.IsPlain ∧ flags.IsPlain
  | _ => True

theorem isPlain_ofCall (method : String) : (ofCall method).IsPlain := by
  unfold ofCall
  split <;> trivial

theorem isPlain_ofCallWithBlock (method : String) (block : Option Sequence) :
    (ofCallWithBlock method block).IsPlain := by
  unfold ofCallWithBlock
  split <;> trivial

theorem isPlain_ofSpecialObject (kind : Option Int64) : (ofSpecialObject kind).IsPlain := by
  unfold ofSpecialObject
  split <;> trivial

end Command

theorem Instruction.isPlain_of_literalOperand {instruction : Instruction} {index : Nat}
    {value : Value} (h : instruction.literalOperand index = .ok value) : value.IsPlain := by
  unfold literalOperand at h
  split at h <;> cases h <;> exact ⟨rfl, rfl⟩

/-- Code holds no classes and no methods. -/
theorem Instruction.isPlain_of_command? {instruction : Instruction} {command : Command}
    (h : instruction.command? = some (.ok command)) : command.IsPlain := by
  -- The cases that are named read operands; the command of the others is fixed by the opcode.
  unfold command? at h
  split at h <;> simp only [Option.some.injEq, reduceCtorEq] at h
  case h_4 =>
    obtain ⟨value, hvalue, h⟩ := except_bind_eq_ok h
    cases h
    exact isPlain_of_literalOperand hvalue
  case h_5 =>
    cases h
    exact Command.isPlain_ofSpecialObject _
  case h_6 =>
    obtain ⟨body, -, h⟩ := except_bind_eq_ok h
    cases h
    exact ⟨rfl, rfl⟩
  case h_9 =>
    obtain ⟨name, hname, h⟩ := except_bind_eq_ok h
    cases h
    exact isPlain_of_literalOperand hname
  case h_10 =>
    obtain ⟨name, hname, h⟩ := except_bind_eq_ok h
    obtain ⟨body, -, h⟩ := except_bind_eq_ok h
    obtain ⟨flags, hflags, h⟩ := except_bind_eq_ok h
    cases h
    exact ⟨isPlain_of_literalOperand hname, isPlain_of_literalOperand hflags⟩
  case h_11 =>
    obtain ⟨site, -, h⟩ := except_bind_eq_ok h
    cases h
    exact Command.isPlain_ofCall _
  case h_12 =>
    obtain ⟨site, -, h⟩ := except_bind_eq_ok h
    cases h
    exact Command.isPlain_ofCallWithBlock _ _
  all_goals
    cases h
    trivial

/-- Replies of one form, with values that are alike and the same body. -/
inductive Reply.Alike (R : Value → Value → Prop) : Reply → Reply → Prop
  | nothing : Alike R .nothing .nothing
  | value {value other : Value} (h : R value other) : Alike R (.value value) (.value other)
  | definition {entity other : Value} (body : Sequence) (h : R entity other) :
      Alike R (.definition entity body) (.definition other body)

theorem Reply.alike_ofMethod {R : Value → Value → Prop} {method other : Value}
    (body : Option Sequence) (h : R method other) :
    Alike R (ofMethod method body) (ofMethod other body) := by
  cases body with
  | none => exact .value h
  | some body => exact .definition body h

/-- Errands of one form: the same declaration on values that are alike, with a reply that depends on
nothing else. -/
inductive Errand.Alike (R : Value → Value → Prop) : Errand → Errand → Prop
  | answer {reply other : Reply} (h : reply.Alike R other) : Alike R (.answer reply) (.answer other)
  | ignore (method : String) : Alike R (.ignore method) (.ignore method)
  | declare {opcode : Opcode} {qualifier : Option String} {values others : List Value}
      {reply : Value → Reply} (hvalues : List.Forall₂ R values others)
      (hreply : ∀ {R' : Value → Value → Prop} {value other : Value}, R' value other →
        (reply value).Alike R' (reply other)) :
      Alike R (.declare opcode qualifier values reply) (.declare opcode qualifier others reply)

theorem Command.errand_defineMethod_alike {R : Value → Value → Prop}
    {self self' root root' : Value} {side : MethodSide} {taken taken' : List Value}
    (hsequence : ∀ value other, R value other → value.sequence? = other.sequence?)
    (hself : R self self') (hlength : taken.length = (defineMethod side).takes)
    (htaken : List.Forall₂ R taken taken') :
    ((defineMethod side).errand self root taken).Alike R
      ((defineMethod side).errand self' root' taken') := by
  cases side with
  | instanceSide =>
    obtain ⟨body, name, rfl⟩ := List.length_eq_two.1 hlength
    obtain _ | ⟨hbody, _ | ⟨hname, _ | _⟩⟩ := htaken
    rw [errand, errand, ← hsequence _ _ hbody]
    exact .declare (.cons hself (.cons hname (.cons hbody .nil)))
      fun h => Reply.alike_ofMethod _ h
  | classSide =>
    obtain ⟨body, name, receiver, rfl⟩ := List.length_eq_three.1 hlength
    obtain _ | ⟨hbody, _ | ⟨hname, _ | ⟨hreceiver, _ | _⟩⟩⟩ := htaken
    rw [errand, errand, ← hsequence _ _ hbody]
    exact .declare (.cons hreceiver (.cons hname (.cons hbody .nil)))
      fun h => Reply.alike_ofMethod _ h

/-- A command on values that are alike has errands that are alike. -/
theorem Command.errand_alike {R : Value → Value → Prop} {self self' root root' : Value}
    {command : Command} {taken taken' : List Value} (hcommand : command.IsPlain)
    (hplain : ∀ value : Value, value.IsPlain → R value value)
    (hsequence : ∀ value other, R value other → value.sequence? = other.sequence?)
    (hself : R self self') (hroot : R root root') (hlength : taken.length = command.takes)
    (htaken : List.Forall₂ R taken taken') :
    (command.errand self root taken).Alike R (command.errand self' root' taken') := by
  cases command with
  | push value => exact .answer (.value (hplain value hcommand))
  | pushSelf => exact .answer (.value hself)
  | pushRoot => exact .answer (.value hroot)
  | ignoreCall method => exact .ignore method
  | leave => exact .answer .nothing
  | discard => exact .answer .nothing
  | refresh =>
    obtain ⟨value, rfl⟩ := List.length_eq_one_iff.1 hlength
    cases htaken with
    | cons hvalue hrest =>
      cases hrest
      exact .answer (.value hvalue)
  | readConstant name =>
    obtain ⟨enclosing, rfl⟩ := List.length_eq_one_iff.1 hlength
    cases htaken with
    | cons henclosing hrest =>
      cases hrest
      exact .declare (.cons (hplain name hcommand) (.cons henclosing .nil)) .value
  | defineClass name body flags =>
    obtain ⟨superclass, enclosing, rfl⟩ := List.length_eq_two.1 hlength
    obtain _ | ⟨hsuperclass, _ | ⟨henclosing, _ | _⟩⟩ := htaken
    refine .declare ?_ fun h => .definition body h
    exact .cons (hplain name hcommand.1) (.cons (hplain _ ⟨rfl, rfl⟩)
      (.cons hsuperclass (.cons henclosing (.cons (hplain flags hcommand.2) .nil))))
  | defineMethod side =>
    exact errand_defineMethod_alike hsequence hself hlength htaken
  | defineFromBlock side block =>
    obtain ⟨name, receiver, rfl⟩ := List.length_eq_two.1 hlength
    obtain _ | ⟨hname, _ | ⟨hreceiver, _ | _⟩⟩ := htaken
    have hblock : (Value.ofSequence? block).IsPlain := by
      cases block <;> exact ⟨rfl, rfl⟩
    exact .declare (.cons hreceiver (.cons hname (.cons (hplain _ hblock) .nil)))
      fun h => Reply.alike_ofMethod _ h
  | findMethod side =>
    obtain ⟨name, receiver, rfl⟩ := List.length_eq_two.1 hlength
    obtain _ | ⟨hname, _ | ⟨hreceiver, _ | _⟩⟩ := htaken
    exact .declare (.cons hreceiver (.cons hname .nil)) .value
  | mixIn kind =>
    obtain ⟨source, receiver, rfl⟩ := List.length_eq_two.1 hlength
    obtain _ | ⟨hsource, _ | ⟨hreceiver, _ | _⟩⟩ := htaken
    exact .declare (.cons hreceiver (.cons hsource .nil)) fun _ => .nothing

/-! ## Machines -/

/-- What is taken to be alike on two machines. -/
structure Simulation (σ τ : Type) where
  Hosts : Host σ → Host τ → Prop
  /-- Values that are alike, between two hosts. -/
  Values : Host σ → Host τ → Value → Value → Prop
  /-- The errors of the first machine that the second one follows. -/
  Followed : RunError → Prop
  /-- The hosts on which the second machine may fail by itself. -/
  Stopped : Host τ → Prop := fun _ => False
  /-- The hosts that the first machine may end with. -/
  Within : Host σ → Prop := fun _ => True

namespace Simulation

variable {σ τ α β γ δ : Type}

/-- The later hosts are alike, and so are all values that were. -/
structure Later (sim : Simulation σ τ) (host : Host σ) (other : Host τ) (host' : Host σ)
    (other' : Host τ) : Prop where
  hosts : sim.Hosts host' other'
  values : ∀ value value', sim.Values host other value value' →
    sim.Values host' other' value value'

/-- What the processors of two machines have to keep to. -/
structure Lawful (sim : Simulation σ τ) (first : Processors σ) (second : Processors τ)
    (below : List Value) : Prop where
  plain : ∀ {host other value}, sim.Hosts host other → value.IsPlain →
    sim.Values host other value value
  sequence : ∀ {host other value value'}, sim.Values host other value value' →
    value.sequence? = value'.sequence?
  /-- A first machine that runs out of values is followed only if there are none below. -/
  underflow : sim.Followed .stackUnderflow → below = []
  report : ∀ {host other} event, sim.Hosts host other →
    sim.Later host other (host.reporting event) (other.reporting event)
  dispatch : ∀ {opcode qualifier values others host other outcome after},
    sim.Hosts host other → List.Forall₂ (sim.Values host other) values others →
    (first.dispatch opcode qualifier values).run.run host = (outcome, after) →
    (∀ error, outcome = .error error → sim.Followed error) → sim.Within after →
    ∃ outcome' after', (second.dispatch opcode qualifier others).run.run other =
        (outcome', after') ∧
      (Outcomes (sim.Values after after') outcome outcome' ∧ sim.Later host other after after' ∨
        (∃ error, outcome' = .error error) ∧ sim.Stopped after')
  within : first.Moves fun host after => sim.Within after → sim.Within host

/-- Hosts and memories are alike, and the values of the second machine stand on `below`. -/
structure Machines (sim : Simulation σ τ) (below : List Value) (machine : Machine σ)
    (other : Machine τ) : Prop where
  hosts : sim.Hosts machine.host other.host
  memory : machine.memory.Alike (sim.Values machine.host other.host) below other.memory

/-- How the second machine may end when the first one does: with the same error or a result that is
alike, or stopped. -/
inductive Ending (sim : Simulation σ τ) (below : List Value)
    (R : Host σ → Host τ → α → β → Prop) (machine : Machine σ) (other : Machine τ)
    (result : Except RunError α) (after : Machine σ) (result' : Except RunError β)
    (after' : Machine τ) : Prop
  | together (houtcomes : Outcomes (R after.host after'.host) result result')
      (hmachines : sim.Machines below after after')
      (hlater : sim.Later machine.host other.host after.host after'.host)
  | stopped {error : RunError} (hresult : result' = .error error)
      (hstopped : sim.Stopped after'.host)

/-- From there, the second run follows the first one. -/
def Follows (sim : Simulation σ τ) (below : List Value) (R : Host σ → Host τ → α → β → Prop)
    (run : RunM σ α) (run' : RunM τ β) (machine : Machine σ) (other : Machine τ) : Prop :=
  ∀ result after, run.Ends machine result after →
    (∀ error, result = .error error → sim.Followed error) → sim.Within after.host →
    ∃ result' after', run'.Ends other result' after' ∧
      sim.Ending below R machine other result after result' after'

section Rules

variable {sim : Simulation σ τ} {first : Processors σ} {second : Processors τ}
  {below : List Value} {machine : Machine σ} {other : Machine τ}

theorem Later.refl {host : Host σ} {other : Host τ} (h : sim.Hosts host other) :
    sim.Later host other host other :=
  ⟨h, fun _ _ hvalue => hvalue⟩

theorem Later.trans {host₁ host₂ host₃ : Host σ} {other₁ other₂ other₃ : Host τ}
    (h₁ : sim.Later host₁ other₁ host₂ other₂) (h₂ : sim.Later host₂ other₂ host₃ other₃) :
    sim.Later host₁ other₁ host₃ other₃ :=
  ⟨h₂.hosts, fun _ _ hvalue => h₂.values _ _ (h₁.values _ _ hvalue)⟩

/-- Machines stay alike while their hosts move on. -/
theorem Machines.later (h : sim.Machines below machine other) {host : Host σ} {host' : Host τ}
    (hlater : sim.Later machine.host other.host host host') :
    sim.Machines below { machine with host := host } { other with host := host' } :=
  ⟨hlater.hosts, h.memory.mono hlater.values⟩

theorem Machines.reporting (law : sim.Lawful first second below)
    (h : sim.Machines below machine other) (event : Event) :
    sim.Machines below (machine.reporting event) (other.reporting event) :=
  h.later (law.report event h.hosts)

theorem follows_pure {R : Host σ → Host τ → α → β → Prop} {value : α} {value' : β}
    (h : sim.Machines below machine other) (hvalue : R machine.host other.host value value') :
    sim.Follows below R (pure value) (pure value') machine other := by
  intro result after hends _ _
  obtain ⟨rfl, rfl⟩ := RunM.ends_pure_iff.1 hends
  exact ⟨.ok value', other, rfl, .together (.ok hvalue) h (.refl h.hosts)⟩

/-- Runs in sequence are followed one after the other.  The first machine has to keep within its
hosts between them, which follows if it does at the end. -/
theorem Follows.bind {R : Host σ → Host τ → α → β → Prop}
    {S : Host σ → Host τ → γ → δ → Prop} {run : RunM σ α} {run' : RunM τ β}
    {next : α → RunM σ γ} {next' : β → RunM τ δ}
    (h : sim.Follows below R run run' machine other)
    (hwithin : ∀ {value between result after}, (next value).Ends between result after →
      sim.Within after.host → sim.Within between.host)
    (hnext : ∀ {value value' between between'}, sim.Machines below between between' →
      R between.host between'.host value value' →
      sim.Follows below S (next value) (next' value') between between') :
    sim.Follows below S (run >>= next) (run' >>= next') machine other := by
  intro result after hends hfollowed hafter
  rcases RunM.ends_bind_iff.1 hends with ⟨error, hrun, rfl⟩ | ⟨value, between, hrun, hrest⟩
  · obtain ⟨result', after', hrun', hending⟩ :=
      h _ _ hrun (fun _ herror => by cases herror; exact hfollowed _ rfl) hafter
    cases hending with
    | together houtcomes hmachines hlater =>
      cases houtcomes
      exact ⟨_, after', hrun'.bind_error _, .together (.error error) hmachines hlater⟩
    | stopped hresult hstopped =>
      subst hresult
      exact ⟨_, after', hrun'.bind_error _, .stopped rfl hstopped⟩
  · obtain ⟨result', between', hrun', hending⟩ := h _ _ hrun nofun (hwithin hrest hafter)
    cases hending with
    | together houtcomes hmachines hlater =>
      cases houtcomes with
      | ok hvalue =>
        obtain ⟨result'', after', hrest', hending⟩ :=
          hnext hmachines hvalue _ _ hrest hfollowed hafter
        refine ⟨result'', after', hrun'.bind hrest', ?_⟩
        cases hending with
        | together houtcomes' hmachines' hlater' =>
          exact .together houtcomes' hmachines' (hlater.trans hlater')
        | stopped hresult hstopped => exact .stopped hresult hstopped
    | stopped hresult hstopped =>
      subst hresult
      exact ⟨_, between', hrun'.bind_error _, .stopped rfl hstopped⟩

/-- Both machines report the same events. -/
theorem Follows.report (law : sim.Lawful first second below)
    {R : Host σ → Host τ → α → β → Prop} {event : Event} {next : Unit → RunM σ α}
    {next' : Unit → RunM τ β} (h : sim.Machines below machine other)
    (hnext : sim.Follows below R (next ()) (next' ()) (machine.reporting event)
      (other.reporting event)) :
    sim.Follows below R (RunM.report event >>= next) (RunM.report event >>= next') machine
      other := by
  intro result after hends hfollowed hafter
  obtain ⟨result', after', hends', hending⟩ :=
    hnext result after (RunM.ends_report_bind_iff.1 hends) hfollowed hafter
  refine ⟨result', after', RunM.ends_report_bind_iff.2 hends', ?_⟩
  cases hending with
  | together houtcomes hmachines hlater =>
    exact .together houtcomes hmachines ((law.report event h.hosts).trans hlater)
  | stopped hresult hstopped => exact .stopped hresult hstopped

end Rules

/-! ## Runs -/

section Runs

open Machine

variable {sim : Simulation σ τ} {first : Processors σ} {second : Processors τ}
  {below : List Value} {machine : Machine σ} {other : Machine τ}

/-- Errands that are alike have replies that are alike. -/
theorem errand_outcomes (law : sim.Lawful first second below) {host after : Host σ} {host' : Host τ}
    {errand errand' : Errand} {outcome : Except RunError Reply} (hhosts : sim.Hosts host host')
    (herrand : errand.Alike (sim.Values host host') errand')
    (hrun : (errand.run first).run.run host = (outcome, after))
    (hfollowed : ∀ error, outcome = .error error → sim.Followed error)
    (hwithin : sim.Within after) :
    ∃ outcome' after', (errand'.run second).run.run host' = (outcome', after') ∧
      (Outcomes (Reply.Alike (sim.Values after after')) outcome outcome' ∧
          sim.Later host host' after after' ∨
        (∃ error, outcome' = .error error) ∧ sim.Stopped after') := by
  cases herrand with
  | answer hreply =>
    cases hrun
    exact ⟨_, host', rfl, Or.inl ⟨.ok hreply, .refl hhosts⟩⟩
  | ignore method =>
    cases hrun
    exact ⟨_, _, rfl, Or.inl ⟨.ok .nothing, law.report (.ignoredCall method) hhosts⟩⟩
  | declare hvalues hreply =>
    rename_i opcode qualifier values others reply
    simp only [Errand.run_declare] at hrun ⊢
    rcases hdispatch : (first.dispatch opcode qualifier values).run.run host with
      ⟨error | value, between⟩
    all_goals
      rw [hdispatch] at hrun
      cases hrun
    · obtain ⟨outcome', after', hrun', hend⟩ := law.dispatch hhosts hvalues hdispatch
        (fun _ herror => by cases herror; exact hfollowed _ rfl) hwithin
      rw [hrun']
      rcases hend with ⟨houtcomes, hlater⟩ | ⟨⟨error', rfl⟩, hstopped⟩
      · cases houtcomes
        exact ⟨_, _, rfl, Or.inl ⟨.error error, hlater⟩⟩
      · exact ⟨_, _, rfl, Or.inr ⟨⟨error', rfl⟩, hstopped⟩⟩
    · obtain ⟨outcome', after', hrun', hend⟩ :=
        law.dispatch hhosts hvalues hdispatch nofun hwithin
      rw [hrun']
      rcases hend with ⟨houtcomes, hlater⟩ | ⟨⟨error', rfl⟩, hstopped⟩
      · cases houtcomes with
        | ok hvalue => exact ⟨_, _, rfl, Or.inl ⟨.ok (hreply hvalue), hlater⟩⟩
      · exact ⟨_, _, rfl, Or.inr ⟨⟨error', rfl⟩, hstopped⟩⟩

/-- Commands that take as many values are prepared alike if their errands are. -/
theorem follows_prepare_of_errand {R : Host σ → Host τ → Reply → Reply → Prop}
    (hunderflow : sim.Followed .stackUnderflow → below = [])
    (h : sim.Machines below machine other) {command command' : Command}
    (htakes' : command'.takes = command.takes)
    (herrand : ∀ {outcome after}, command.takes ≤ machine.memory.depth →
      ((command.errand machine.memory.self machine.memory.root
        (machine.memory.values.take command.takes)).run first).run.run machine.host =
          (outcome, after) →
      (∀ error, outcome = .error error → sim.Followed error) → sim.Within after →
      ∃ outcome' after', ((command'.errand other.memory.self other.memory.root
          (other.memory.values.take command.takes)).run second).run.run other.host =
            (outcome', after') ∧
        (Outcomes (R after after') outcome outcome' ∧
            sim.Later machine.host other.host after after' ∨
          (∃ error, outcome' = .error error) ∧ sim.Stopped after')) :
    sim.Follows below R (prepare first command) (prepare second command') machine other := by
  intro result after hends hfollowed hwithin
  obtain ⟨hmemory, hhost⟩ := ends_prepare_iff.1 hends
  have hdepth := h.memory.depth_eq
  by_cases htakes : command.takes ≤ machine.memory.depth
  · rw [if_pos htakes, Command.perform_eq] at hhost
    obtain ⟨outcome', host', hrun', hend⟩ := herrand htakes hhost hfollowed hwithin
    refine ⟨outcome', ⟨other.memory.dropping command.takes, host'⟩,
      ends_prepare_iff.2 ⟨by rw [htakes'], ?_⟩, ?_⟩
    · rw [htakes', if_pos (by omega), Command.perform_eq]
      exact hrun'
    · rcases hend with ⟨houtcomes, hlater⟩ | ⟨⟨error, rfl⟩, hstopped⟩
      · refine .together houtcomes ⟨hlater.hosts, ?_⟩ hlater
        rw [hmemory]
        exact (h.memory.dropping (Or.inl htakes)).mono hlater.values
      · exact .stopped rfl hstopped
  · -- The second machine has no values below, or it would find enough of them.
    rw [if_neg htakes] at hhost
    obtain ⟨rfl, hhost⟩ := hhost
    have hbelow := hunderflow (hfollowed _ rfl)
    have hlater : sim.Later machine.host other.host after.host other.host := by
      rw [hhost]
      exact .refl h.hosts
    refine ⟨.error .stackUnderflow, ⟨other.memory.dropping command.takes, other.host⟩,
      ends_prepare_iff.2 ⟨by rw [htakes'], ?_⟩, .together (.error _) ⟨hlater.hosts, ?_⟩ hlater⟩
    · rw [hbelow, List.length_nil] at hdepth
      rw [htakes', if_neg (by omega)]
      exact ⟨rfl, rfl⟩
    · rw [hmemory]
      exact (h.memory.dropping (Or.inr hbelow)).mono hlater.values

theorem follows_prepare (law : sim.Lawful first second below)
    (h : sim.Machines below machine other) {command : Command} (hcommand : command.IsPlain) :
    sim.Follows below (fun host host' => Reply.Alike (sim.Values host host'))
      (prepare first command) (prepare second command) machine other := by
  refine follows_prepare_of_errand law.underflow h rfl fun htakes hrun hfollowed hwithin => ?_
  have herrand := Command.errand_alike hcommand (fun _ => law.plain h.hosts)
    (fun _ _ => law.sequence) h.memory.self h.memory.root
    (by rw [List.length_take]; exact Nat.min_eq_left htakes) (h.memory.forall₂_take htakes)
  exact errand_outcomes law h.hosts herrand hrun hfollowed hwithin

theorem follows_push (h : sim.Machines below machine other) {value value' : Value}
    (hvalue : sim.Values machine.host other.host value value') :
    sim.Follows below (fun _ _ _ _ => True) (RunM.push value) (RunM.push value') machine other := by
  intro result after hends _ _
  obtain ⟨rfl, rfl⟩ := RunM.ends_push_iff.1 hends
  exact ⟨_, _, RunM.ends_push_iff.2 ⟨rfl, rfl⟩,
    .together (.ok trivial) ⟨h.hosts, h.memory.push hvalue⟩ (.refl h.hosts)⟩

theorem follows_leave (h : sim.Machines below machine other) :
    sim.Follows below (fun _ _ _ _ => True) (RunM.attempt Memory.leave)
      (RunM.attempt Memory.leave) machine other := by
  intro result after hends _ _
  have hleave := h.memory.leave
  rcases RunM.ends_attempt_iff.1 hends with
    ⟨error, hfirst, rfl, rfl⟩ | ⟨value, left, hfirst, rfl, rfl⟩
  · rw [hfirst] at hleave
    generalize hsecond : other.memory.leave = left' at hleave
    cases hleave
    exact ⟨_, _, RunM.ends_attempt_iff.2 (Or.inl ⟨error, hsecond, rfl, rfl⟩),
      .together (.error error) h (.refl h.hosts)⟩
  · rw [hfirst] at hleave
    generalize hsecond : other.memory.leave = left' at hleave
    cases hleave with
    | ok hleft =>
      exact ⟨_, _, RunM.ends_attempt_iff.2 (Or.inr ⟨_, _, hsecond, rfl, rfl⟩),
        .together (.ok trivial) ⟨h.hosts, hleft.2⟩ (.refl h.hosts)⟩

/-- Ways to run bodies of which the second follows the first. -/
def Nests (sim : Simulation σ τ) (below : List Value) (nested : Nested σ) (nested' : Nested τ) :
    Prop :=
  ∀ scope scope' body machine other, sim.Machines below machine other →
    sim.Values machine.host other.host scope scope' →
    sim.Follows below sim.Values (nested scope body) (nested' scope' body) machine other

section Bodies

variable {nested : Nested σ} {nested' : Nested τ}

/-- A definition is followed if its body is. -/
theorem follows_runEntityWith (hunderflow : sim.Followed .stackUnderflow → below = [])
    {entity entity' : Value} {body body' : Sequence}
    (hentity : sim.Values machine.host other.host entity entity')
    (hbodies : sim.Follows below sim.Values (nested entity body) (nested' entity' body') machine
      other) :
    sim.Follows below (fun _ _ _ _ => True) (runEntityWith nested entity body)
      (runEntityWith nested' entity' body') machine other := by
  intro result after hends hfollowed hwithin
  rcases ends_runEntityWith_iff.1 hends with ⟨error, hbody, rfl⟩ | ⟨value, between, hbody, hafter⟩
  · obtain ⟨result', after', hbody', hending⟩ := hbodies _ _ hbody
      (fun _ herror => by cases herror; exact hfollowed _ rfl) hwithin
    cases hending with
    | together houtcomes hmachines hlater =>
      cases houtcomes
      exact ⟨_, after', ends_runEntityWith_iff.2 (Or.inl ⟨error, hbody', rfl⟩),
        .together (.error error) hmachines hlater⟩
    | stopped hresult hstopped =>
      subst hresult
      exact ⟨_, after', ends_runEntityWith_iff.2 (Or.inl ⟨_, hbody', rfl⟩), .stopped rfl hstopped⟩
  · have hhost : after.host = between.host := by
      split at hafter <;> rw [hafter.2]
    rw [hhost] at hwithin
    obtain ⟨result', between', hbody', hending⟩ := hbodies _ _ hbody nofun hwithin
    cases hending with
    | stopped hresult hstopped =>
      subst hresult
      exact ⟨_, between', ends_runEntityWith_iff.2 (Or.inl ⟨_, hbody', rfl⟩),
        .stopped rfl hstopped⟩
    | together houtcomes hmachines hlater =>
      cases houtcomes with
      | ok _ =>
        obtain ⟨upper, hvalues, hupper⟩ := hmachines.memory.values
        by_cases hempty : between.memory.values = []
        · rw [if_pos hempty] at hafter
          obtain ⟨rfl, rfl⟩ := hafter
          have hbelow := hunderflow (hfollowed _ rfl)
          rw [hempty] at hupper
          rw [List.forall₂_nil_left_iff.1 hupper, hbelow, List.append_nil] at hvalues
          refine ⟨_, between', ends_runEntityWith_iff.2 (Or.inr ⟨_, between', hbody', ?_⟩),
            .together (.error _) hmachines hlater⟩
          rw [if_pos hvalues]
          exact ⟨rfl, rfl⟩
        · rw [if_neg hempty] at hafter
          obtain ⟨rfl, rfl⟩ := hafter
          have hone : 1 ≤ between.memory.depth := List.length_pos_iff.2 hempty
          refine ⟨.ok (), { between' with memory := (between'.memory.dropping 1).push entity' },
            ends_runEntityWith_iff.2 (Or.inr ⟨_, between', hbody', ?_⟩),
            .together (.ok trivial) ⟨hmachines.hosts, ?_⟩ hlater⟩
          · have hdepth := hmachines.memory.depth_eq
            rw [if_neg (fun hnil => by rw [Memory.depth, hnil, List.length_nil] at hdepth; omega)]
            exact ⟨rfl, rfl⟩
          · exact (hmachines.memory.dropping (Or.inl hone)).push (hlater.values _ _ hentity)

theorem follows_settle (law : sim.Lawful first second below)
    (hnested : sim.Nests below nested nested') (h : sim.Machines below machine other)
    {reply reply' : Reply} (hreply : reply.Alike (sim.Values machine.host other.host) reply') :
    sim.Follows below (fun _ _ _ _ => True) (settle nested reply) (settle nested' reply') machine
      other := by
  cases hreply with
  | nothing => exact follows_pure h trivial
  | value hvalue => exact follows_push h hvalue
  | definition body hentity =>
    exact follows_runEntityWith law.underflow hentity (hnested _ _ body _ _ h hentity)

/-- An instruction is followed by the same instruction. -/
theorem follows_step (law : sim.Lawful first second below)
    (hnested : sim.Nests below nested nested')
    (hwithin : Processors.Moves.Nests (fun host after => sim.Within after → sim.Within host) nested)
    (h : sim.Machines below machine other) (instruction : Instruction) :
    sim.Follows below (fun _ _ => Eq) (step first nested instruction)
      (step second nested' instruction) machine other := by
  rcases hcommand? : instruction.command? with _ | error | command
  · rw [step_of_none hcommand?, step_of_none hcommand?]
    exact .report law h (follows_pure (h.reporting law _) rfl)
  · rw [step_of_error hcommand?, step_of_error hcommand?]
    refine .report law h ?_
    intro result after hends _ _
    obtain ⟨rfl, rfl⟩ := RunM.ends_throw_iff.1 hends
    have hreporting := h.reporting law (.running instruction)
    exact ⟨_, _, rfl, .together (.error error) hreporting (.refl hreporting.hosts)⟩
  · by_cases hcommand : command = .leave
    · subst hcommand
      rw [step_of_leave hcommand?, step_of_leave hcommand?]
      refine .report law h (Follows.bind (R := fun _ _ _ _ => True)
        (follows_leave (h.reporting law _)) ?_ ?_)
      · intro value between result after hends hafter
        obtain ⟨-, rfl⟩ := RunM.ends_pure_iff.1 hends
        exact hafter
      · exact fun hmachines _ => follows_pure hmachines rfl
    · have hplain := Instruction.isPlain_of_command? hcommand?
      rw [step_of_ok hcommand?, step_of_ok hcommand?, execute_eq _ _ hcommand,
        execute_eq _ _ hcommand]
      refine .report law h (Follows.bind (R := fun _ _ _ _ => True) (Follows.bind
        (follows_prepare law (h.reporting law _) hplain) ?_ ?_) ?_ ?_)
      · exact fun hends => law.within.of_settle hwithin hends
      · exact fun hmachines hreply => follows_settle law hnested hmachines hreply
      · intro value between result after hends hafter
        obtain ⟨-, rfl⟩ := RunM.ends_pure_iff.1 hends
        exact hafter
      · exact fun hmachines _ => follows_pure hmachines rfl

theorem follows_runCode (law : sim.Lawful first second below)
    (hnested : sim.Nests below nested nested')
    (hwithin : Processors.Moves.Nests (fun host after => sim.Within after → sim.Within host) nested)
    (h : sim.Machines below machine other) (code : List Instruction) :
    sim.Follows below (fun _ _ _ _ => True) (runCode first nested code)
      (runCode second nested' code) machine other := by
  induction code generalizing machine other with
  | nil => exact follows_pure h trivial
  | cons instruction rest ih =>
    refine (follows_step law hnested hwithin h instruction).bind ?_ ?_
    · intro flow between result after hends hafter
      cases flow with
      | next => exact law.within.of_runCode hwithin hends hafter
      | leave =>
        obtain ⟨-, rfl⟩ := RunM.ends_pure_iff.1 hends
        exact hafter
    · intro flow flow' between between' hmachines hflow
      subst hflow
      cases flow with
      | next => exact ih hmachines
      | leave => exact follows_pure hmachines trivial

end Bodies

/-- Bodies are followed if their code is: the frames of both are finished alike. -/
theorem follows_runInFrame_succ (hunderflow : sim.Followed .stackUnderflow → below = [])
    (h : sim.Machines below machine other) {levels levels' : Nat} {scope scope' : Value}
    {body body' : Sequence}
    (hentered : sim.Later machine.host other.host (machine.entered scope body).host
      (other.entered scope' body').host)
    (hcode : sim.Follows below (fun _ _ _ _ => True)
      (runCode first (runInFrame first levels) body.code)
      (runCode second (runInFrame second levels') body'.code) (machine.entered scope body)
      (other.entered scope' body')) :
    sim.Follows below sim.Values (runInFrame first (levels + 1) scope body)
      (runInFrame second (levels' + 1) scope' body') machine other := by
  intro result after hends hfollowed hwithin
  obtain ⟨outcome, inner, hinner, rfl, rfl⟩ := ends_runInFrame_succ_iff.1 hends
  obtain ⟨outcome', inner', hinner', hending⟩ := hcode outcome inner hinner
    (fun error herror => hfollowed error (by rw [herror]; rfl)) hwithin
  refine ⟨_, _, ends_runInFrame_succ_iff.2 ⟨outcome', inner', hinner', rfl, rfl⟩, ?_⟩
  rw [h.memory.frameDepth_eq]
  cases hending with
  | together houtcomes hmachines hlater =>
    have hsame : outcome' = outcome := by
      cases houtcomes <;> rfl
    subst hsame
    obtain ⟨hresults, hmemory⟩ := hmachines.memory.finish machine.memory.frameDepth
      fun herror => hunderflow (hfollowed _ herror)
    exact .together hresults ⟨hmachines.hosts, hmemory⟩ (hentered.trans hlater)
  | stopped hresult hstopped =>
    subst hresult
    exact .stopped rfl hstopped

theorem nests_succ (law : sim.Lawful first second below) {levels levels' : Nat}
    (hnested : sim.Nests below (runInFrame first levels) (runInFrame second levels')) :
    sim.Nests below (runInFrame first (levels + 1)) (runInFrame second (levels' + 1)) := by
  intro scope scope' body machine other h hscope
  have hopened : sim.Machines below { machine with memory := machine.memory.enter scope }
      { other with memory := other.memory.enter scope' } :=
    ⟨h.hosts, h.memory.enter hscope⟩
  exact follows_runInFrame_succ law.underflow h (law.report (.entered body) h.hosts)
    (follows_runCode law hnested (law.within.of_runInFrame levels)
      (hopened.reporting law (.entered body)) body.code)

/-- The second machine follows the first one through every body, if it may go down as deep. -/
theorem nests_runInFrame (law : sim.Lawful first second below) {levels levels' : Nat}
    (hlevels : levels ≤ levels') :
    sim.Nests below (runInFrame first levels) (runInFrame second levels') := by
  induction levels generalizing levels' with
  | zero =>
    intro scope scope' body machine other _ _ result after hends
    exact absurd hends not_ends_runInFrame_zero
  | succ levels ih =>
    obtain ⟨levels', rfl⟩ : ∃ deeper, levels' = deeper + 1 := ⟨levels' - 1, by omega⟩
    exact nests_succ law (ih (by omega))

end Runs

end Simulation

end ClassIndex
