import ClassIndex.Program.Demo
import ClassIndex.Proofs.Frames
import ClassIndex.Proofs.Steps

/-!
# Runs are balanced

Whatever code a body holds, a run in a frame of its own gives back the frames and the scopes that it
found.  The induction is on the number of levels: `Balanced` is what is known about the bodies one
level down, `step_of_inside` is the step, and `balanced_runInFrame` the run.  While the code of a
body is run, its own frame and scope stay the innermost ones at each of its instructions
(`inside_of_reaches`), also after the bodies of nested definitions.
-/

namespace ClassIndex

namespace Machine

variable {σ : Type}

/-- A way to run bodies that gives back frames and scopes, and leaves one value or an error with no
more values than before. -/
def Balanced (nested : Nested σ) : Prop :=
  ∀ (scope : Value) (body : Sequence) (machine after : Machine σ)
    (result : Except RunError Value), (nested scope body).Ends machine result after →
      machine.memory.SameFrames after.memory ∧ machine.memory.Yields result after.memory

section Bodies

variable {processors : Processors σ} {nested : Nested σ} {machine after : Machine σ}
  {before : Memory} {scope : Value}

theorem inside_of_prepare {command : Command} {result : Except RunError Reply}
    {event : Event} (h : before.Inside scope machine.memory)
    (hprepare : (prepare processors command).Ends (machine.reporting event) result after) :
    before.Inside scope after.memory := by
  rw [memory_of_prepare hprepare]
  exact h.congr rfl rfl

theorem sameFrames_of_runEntityWith {entity : Value} {body : Sequence}
    {result : Except RunError Unit} (hnested : Balanced nested)
    (h : (runEntityWith nested entity body).Ends machine result after) :
    machine.memory.SameFrames after.memory := by
  rcases ends_runEntityWith_iff.1 h with ⟨error, hbody, -⟩ | ⟨value, between, hbody, h⟩
  · exact (hnested _ _ _ _ _ hbody).1
  · have hsame := (hnested _ _ _ _ _ hbody).1
    split at h
    · rw [h.2]
      exact hsame
    · rw [h.2]
      exact ⟨hsame.frames, hsame.scopes⟩

theorem sameFrames_of_settle {reply : Reply} {result : Except RunError Unit}
    (hnested : Balanced nested)
    (h : (settle nested reply).Ends machine result after) :
    machine.memory.SameFrames after.memory := by
  cases reply with
  | nothing =>
    obtain ⟨-, rfl⟩ := RunM.ends_pure_iff.1 h
    exact ⟨rfl, rfl⟩
  | value value =>
    obtain ⟨-, rfl⟩ := RunM.ends_push_iff.1 h
    exact ⟨rfl, rfl⟩
  | definition entity body => exact sameFrames_of_runEntityWith hnested h

/-- An instruction of a body leaves the body, or its frame and scope stay the innermost ones. -/
theorem step_of_inside {instruction : Instruction} {result : Except RunError Flow}
    (hnested : Balanced nested) (h : before.Inside scope machine.memory)
    (hstep : (step processors nested instruction).Ends machine result after) :
    (result = .ok .leave ∧ before.SameFrames after.memory ∧
      after.memory.depth = before.depth + 1) ∨
    (result ≠ .ok .leave ∧ before.Inside scope after.memory) := by
  cases stepEnds_of_ends hstep with
  | skipped _ => exact Or.inr ⟨nofun, h⟩
  | malformed _ => exact Or.inr ⟨nofun, h⟩
  | stuck _ _ => exact Or.inr ⟨nofun, h⟩
  | left _ hleave =>
    obtain ⟨hsame, hvalues, -, hdepth⟩ := Memory.leave_of_inside h hleave
    exact Or.inl ⟨rfl, hsame, (congrArg List.length hvalues).trans hdepth⟩
  | refused _ _ hprepare => exact Or.inr ⟨nofun, inside_of_prepare h hprepare⟩
  | failed _ _ hprepare hsettle | settled _ _ hprepare hsettle =>
    have hbetween := inside_of_prepare h hprepare
    have hsame := sameFrames_of_settle hnested hsettle
    exact Or.inr ⟨nofun, hbetween.congr hsame.frames hsame.scopes⟩

theorem inside_of_reaches {code rest : List Instruction} (hnested : Balanced nested)
    (h : before.Inside scope machine.memory)
    (hreaches : Reaches processors nested code machine rest after) :
    before.Inside scope after.memory := by
  refine hreaches.invariant (P := fun _ machine => before.Inside scope machine.memory) ?_ h
  intro instruction code machine after h hstep
  rcases step_of_inside hnested h hstep with ⟨habsurd, -⟩ | ⟨-, hinside⟩
  · cases habsurd
  · exact hinside

theorem bodyEnd_of_runCode {code : List Instruction} {outcome : Except RunError Unit}
    (hnested : Balanced nested) (h : before.Inside scope machine.memory)
    (hrun : (runCode processors nested code).Ends machine outcome after) :
    before.BodyEnd scope outcome after.memory := by
  rcases reaches_of_ends_runCode hrun with
    ⟨hreaches, rfl⟩ | ⟨instruction, rest, last, hreaches, hlast⟩
  · exact .inside (inside_of_reaches hnested h hreaches)
  · have hinside := inside_of_reaches hnested h hreaches
    rcases hlast with ⟨error, hstep, rfl⟩ | ⟨hstep, rfl⟩
    · rcases step_of_inside hnested hinside hstep with ⟨habsurd, -⟩ | ⟨-, hafter⟩
      · cases habsurd
      · exact .inside hafter
    · rcases step_of_inside hnested hinside hstep with ⟨-, hsame, hdepth⟩ | ⟨habsurd, -⟩
      · exact .left hsame hdepth
      · exact absurd rfl habsurd

theorem inside_entered (machine : Machine σ) (scope : Value) (body : Sequence) :
    machine.memory.Inside scope (machine.entered scope body).memory :=
  Memory.inside_enter machine.memory scope

end Bodies

theorem balanced_succ {processors : Processors σ} {levels : Nat}
    (h : Balanced (runInFrame processors levels)) :
    Balanced (runInFrame processors (levels + 1)) := by
  intro scope body machine after result hrun
  obtain ⟨outcome, inner, hcode, rfl, rfl⟩ := ends_runInFrame_succ_iff.1 hrun
  have hend := bodyEnd_of_runCode h (inside_entered machine scope body) hcode
  obtain ⟨hsame, hfinished⟩ := Memory.finish_of_bodyEnd hend
  exact ⟨hsame, hfinished.yields⟩

theorem balanced_runInFrame (processors : Processors σ) (levels : Nat) :
    Balanced (runInFrame processors levels) := by
  induction levels with
  | zero => exact fun _ _ _ _ _ h => absurd h not_ends_runInFrame_zero
  | succ levels ih => exact balanced_succ ih

theorem yields_of_runEntityWith {nested : Nested σ} {entity : Value} {body : Sequence}
    {machine after : Machine σ} (hnested : Balanced nested)
    (h : (runEntityWith nested entity body).Ends machine (.ok ()) after) :
    machine.memory.Yields (.ok entity) after.memory := by
  rcases ends_runEntityWith_iff.1 h with ⟨_, _, habsurd⟩ | ⟨value, between, hbody, h⟩
  · cases habsurd
  · have hdepth := (hnested _ _ _ _ _ hbody).2.2
    split at h
    · cases h.1
    · rw [h.2]
      refine ⟨rfl, ?_⟩
      rw [← hdepth]
      show (between.memory.values.drop 1).length + 1 = between.memory.values.length
      rw [List.length_drop, ← Memory.depth, hdepth]
      rfl

/-! ## What a body does to the stacks -/

/-- Whatever code it holds, a body that comes to an end gives back the frames and the scopes that it
found, and one value more or an error.  Such a run is a run of the code of the body from
`machine.entered scope body`, and then the frame is finished; at each instruction that is reached
from there, the body's own `self` is the innermost scope above those it found.  The body of an
entity leaves the entity. -/
theorem runInFrame_restores_frames (processors : Processors σ) (levels : Nat) (scope : Value)
    (body : Sequence) (machine : Machine σ) :
    (∀ result after, (runInFrame processors levels scope body).Ends machine result after →
      after.memory.frames = machine.memory.frames ∧
      after.memory.scopes = machine.memory.scopes ∧
      (match result with
      | .ok value =>
        after.memory.top? = some value ∧ after.memory.depth = machine.memory.depth + 1
      | .error _ => after.memory.depth ≤ machine.memory.depth) ∧
      ∃ below outcome inner, levels = below + 1 ∧
        (runCode processors (runInFrame processors below) body.code).Ends
          (machine.entered scope body) outcome inner ∧
        (result, after.memory) = inner.memory.finish machine.memory.frameDepth outcome) ∧
    (∀ instruction rest between,
      Reaches processors (runInFrame processors levels) body.code (machine.entered scope body)
        (instruction :: rest) between →
      between.memory.scopes = scope :: machine.memory.scopes ∧ between.memory.self = scope) ∧
    (∀ after, (runEntity processors levels scope body).Ends machine (.ok ()) after →
      after.memory.top? = some scope ∧ after.memory.depth = machine.memory.depth + 1) := by
  have hbalanced := balanced_runInFrame processors levels
  refine ⟨fun result after h => ?_, fun instruction rest between h => ?_, fun after h => ?_⟩
  · obtain ⟨hsame, hyields⟩ := hbalanced scope body machine after result h
    refine ⟨hsame.frames, hsame.scopes, by cases result <;> exact hyields, ?_⟩
    rcases levels with _ | below
    · exact absurd h not_ends_runInFrame_zero
    · obtain ⟨outcome, inner, hcode, rfl, rfl⟩ := ends_runInFrame_succ_iff.1 h
      exact ⟨below, outcome, inner, rfl, hcode, rfl⟩
  · have hscopes := (inside_of_reaches hbalanced (inside_entered machine scope body) h).scopes
    refine ⟨hscopes, ?_⟩
    rw [Memory.self, hscopes]
    rfl
  · exact yields_of_runEntityWith hbalanced h

/-- A program of nested definitions, run above a value that is there already. -/
theorem runInFrame_restores_frames_demo :
    ∃ after : Machine Unit,
      (runInFrame Processors.empty 3 .nil Demo.program).Ends
        ⟨(Memory.ofRoot .nil).push .nil, ⟨(), #[]⟩⟩ (.ok .nil) after ∧
      after.memory.frames = [] ∧ after.memory.scopes = [.nil] ∧ after.memory.depth = 2 := by
  have hcheck : ((runInFrame Processors.empty 3 .nil Demo.program).run.run
      ⟨(Memory.ofRoot .nil).push .nil, ⟨(), #[]⟩⟩).any
        (fun ending => ending.1.toOption.any Value.isNil) = true := by
    decide +kernel
  obtain ⟨result, after, hends, hresult⟩ := RunM.exists_ends_of_any hcheck
  rcases result with error | ⟨_ | _ | _ | _ | _⟩
  case ok.nil =>
    obtain ⟨hframes, hscopes, ⟨-, hdepth⟩, -⟩ :=
      (runInFrame_restores_frames Processors.empty 3 .nil Demo.program _).1 _ after hends
    exact ⟨after, hends, hframes, hscopes, hdepth⟩
  all_goals cases hresult

end Machine

end ClassIndex
