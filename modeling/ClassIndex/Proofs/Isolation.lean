import ClassIndex.Proofs.Balance

/-!
# Values below the mark

Nothing keeps a command from taking values below the mark of the frame that it runs in: a failed
body is cut back to the height of the mark, whatever stands below it by then, and a body that is
left is only counted.  So a body gives back the values that it found under a condition.
`runInFrame_isolated_iff` states it exactly: the values that were there are still the lowest ones
when the code of the body ends.  No body that stays above them (`StaysAbove`) can break it, its
nested definitions included; the argument is the run lemma `keepsAbove_runInFrame`, which holds for
every part of the stack that no command of the run gets down to.
-/

namespace ClassIndex

namespace Memory

/-- The values are those of `before`, below the result if there is one. -/
def Isolated (before : Memory) : Except RunError Value → Memory → Prop
  | .ok value, after => after.values = value :: before.values
  | .error _, after => after.values = before.values

section Suffixes

variable {α : Type} {kept stack : List α}

theorem suffix_drop {count : Nat} (h : kept <:+ stack)
    (hcount : kept.length + count ≤ stack.length) : kept <:+ stack.drop count := by
  refine List.suffix_of_suffix_length_le h (List.drop_suffix count stack) ?_
  rw [List.length_drop]
  omega

theorem suffix_cut {height : Nat} (h : kept <:+ stack) (hheight : kept.length ≤ height) :
    kept <:+ cut height stack := by
  have hlength := h.length_le
  exact suffix_drop h (by omega)

end Suffixes

theorem values_of_leave {memory left : Memory} {value : Value}
    (h : memory.leave = .ok (value, left)) : left.values = memory.values := by
  rcases hframes : memory.frames with _ | ⟨mark, rest⟩
  · rw [leave, hframes] at h
    cases h
  · rw [leave_of_frames hframes] at h
    split at h
    · rcases hvalues : memory.values with _ | ⟨top, lower⟩
      · rw [hvalues] at h
        cases h
      · rw [hvalues] at h
        cases h
        exact hvalues
    · cases h

/-- A finished body is isolated just if its code has left the old values at the bottom. -/
theorem Finished.isolated_iff {before inner after : Memory} {result : Except RunError Value}
    (h : Finished before inner result after) :
    before.Isolated result after ↔ before.values <:+ inner.values := by
  cases result with
  | ok value =>
    obtain ⟨hvalues, htop, hdepth⟩ := h
    show after.values = value :: before.values ↔ _
    rw [depth, depth] at hdepth
    rw [top?, hvalues] at htop
    rw [hvalues] at hdepth ⊢
    constructor
    · intro hinner
      rw [hinner]
      exact List.suffix_cons value before.values
    · rintro ⟨upper, hupper⟩
      rw [← hupper, List.length_append, Nat.add_comm, Nat.add_left_cancel_iff] at hdepth
      obtain ⟨top, rfl⟩ := List.length_eq_one_iff.1 hdepth
      rw [← hupper] at htop ⊢
      cases htop
      rfl
  | error error =>
    show after.values = before.values ↔ _
    rw [show after.values = cut before.depth inner.values from h]
    constructor
    · intro hcut
      rw [← hcut]
      exact List.drop_suffix _ _
    · rintro ⟨upper, hupper⟩
      rw [← hupper]
      exact cut_length_append upper before.values

end Memory

namespace Machine

variable {σ : Type}

/-- The commands that a body comes to when it is run, those of the bodies of its definitions
included, each with the machine that it finds. -/
inductive Visits (processors : Processors σ) :
    Nat → Value → Sequence → Machine σ → Command → Machine σ → Prop
  | own {levels : Nat} {scope : Value} {body : Sequence} {machine between : Machine σ}
      {instruction : Instruction} {rest : List Instruction} {command : Command}
      (hreaches : Reaches processors (runInFrame processors levels) body.code
        (machine.entered scope body) (instruction :: rest) between)
      (hcommand : instruction.command? = some (.ok command)) :
      Visits processors (levels + 1) scope body machine command between
  | nested {levels : Nat} {scope entity : Value} {body definition : Sequence}
      {machine between prepared deep : Machine σ} {instruction : Instruction}
      {rest : List Instruction} {command inner : Command}
      (hreaches : Reaches processors (runInFrame processors levels) body.code
        (machine.entered scope body) (instruction :: rest) between)
      (hcommand : instruction.command? = some (.ok command))
      (hprepare : (prepare processors command).Ends (between.reporting (.running instruction))
        (.ok (.definition entity definition)) prepared)
      (hvisits : Visits processors levels entity definition prepared inner deep) :
      Visits processors (levels + 1) scope body machine inner deep

/-- Every command of the run finds the values that it takes above the lowest `low` ones. -/
def StaysAbove (processors : Processors σ) (levels : Nat) (scope : Value) (body : Sequence)
    (machine : Machine σ) (low : Nat) : Prop :=
  ∀ command between, Visits processors levels scope body machine command between →
    low + command.takes ≤ between.memory.depth

/-- Runs of bodies keep what they stay above. -/
def KeepsAbove (processors : Processors σ) (levels : Nat) : Prop :=
  ∀ (scope : Value) (body : Sequence) (machine after : Machine σ)
    (result : Except RunError Value) (kept : List Value),
      (runInFrame processors levels scope body).Ends machine result after →
      StaysAbove processors levels scope body machine kept.length →
      kept <:+ machine.memory.values → kept <:+ after.memory.values

section Bodies

variable {processors : Processors σ} {levels : Nat} {machine after : Machine σ}
  {kept : List Value}

theorem suffix_of_prepare {command : Command} {event : Event} {result : Except RunError Reply}
    (h : kept <:+ machine.memory.values)
    (htakes : kept.length + command.takes ≤ machine.memory.depth)
    (hprepare : (prepare processors command).Ends (machine.reporting event) result after) :
    kept <:+ after.memory.values := by
  rw [memory_of_prepare hprepare]
  exact Memory.suffix_drop h htakes

theorem suffix_of_runEntityWith {entity : Value} {body : Sequence}
    {result : Except RunError Unit} (hkeeps : KeepsAbove processors levels)
    (habove : StaysAbove processors levels entity body machine kept.length)
    (h : kept <:+ machine.memory.values)
    (hrun : (runEntityWith (runInFrame processors levels) entity body).Ends machine result after) :
    kept <:+ after.memory.values := by
  rcases ends_runEntityWith_iff.1 hrun with ⟨error, hbody, -⟩ | ⟨value, between, hbody, hafter⟩
  · exact hkeeps _ _ _ _ _ _ hbody habove h
  · have hbetween := hkeeps _ _ _ _ _ _ hbody habove h
    have hdepth := (balanced_runInFrame processors levels _ _ _ _ _ hbody).2.2
    have hlow : kept.length ≤ machine.memory.depth := h.length_le
    split at hafter
    · rw [hafter.2]
      exact hbetween
    · rw [hafter.2]
      refine List.suffix_cons_iff.2 (Or.inr (Memory.suffix_drop hbetween ?_))
      rw [← Memory.depth, hdepth]
      omega

theorem suffix_of_settle {reply : Reply} {result : Except RunError Unit}
    (hkeeps : KeepsAbove processors levels)
    (habove : ∀ entity body, reply = .definition entity body →
      StaysAbove processors levels entity body machine kept.length)
    (h : kept <:+ machine.memory.values)
    (hsettle : (settle (runInFrame processors levels) reply).Ends machine result after) :
    kept <:+ after.memory.values := by
  cases reply with
  | nothing =>
    obtain ⟨-, rfl⟩ := RunM.ends_pure_iff.1 hsettle
    exact h
  | value value =>
    obtain ⟨-, rfl⟩ := RunM.ends_push_iff.1 hsettle
    exact List.suffix_cons_iff.2 (Or.inr h)
  | definition entity body =>
    exact suffix_of_runEntityWith hkeeps (habove entity body rfl) h hsettle

theorem suffix_of_step {instruction : Instruction} {result : Except RunError Flow}
    (hkeeps : KeepsAbove processors levels)
    (hown : ∀ command, instruction.command? = some (.ok command) →
      kept.length + command.takes ≤ machine.memory.depth)
    (hnested : ∀ command entity body prepared, instruction.command? = some (.ok command) →
      (prepare processors command).Ends (machine.reporting (.running instruction))
        (.ok (.definition entity body)) prepared →
      StaysAbove processors levels entity body prepared kept.length)
    (h : kept <:+ machine.memory.values)
    (hstep : (step processors (runInFrame processors levels) instruction).Ends machine result
      after) :
    kept <:+ after.memory.values := by
  cases stepEnds_of_ends hstep with
  | skipped _ => exact h
  | malformed _ => exact h
  | stuck _ _ => exact h
  | left _ hleave =>
    rw [Memory.values_of_leave hleave]
    exact h
  | refused hcommand _ hprepare => exact suffix_of_prepare h (hown _ hcommand) hprepare
  | failed hcommand _ hprepare hsettle | settled hcommand _ hprepare hsettle =>
    refine suffix_of_settle hkeeps ?_ (suffix_of_prepare h (hown _ hcommand) hprepare) hsettle
    rintro entity body rfl
    exact hnested _ entity body _ hcommand hprepare

section Code

variable {scope : Value} {body : Sequence} {rest : List Instruction} {between : Machine σ}

theorem suffix_of_step_of_reaches {instruction : Instruction} {result : Except RunError Flow}
    (hkeeps : KeepsAbove processors levels)
    (habove : StaysAbove processors (levels + 1) scope body machine kept.length)
    (hreaches : Reaches processors (runInFrame processors levels) body.code
      (machine.entered scope body) (instruction :: rest) between)
    (h : kept <:+ between.memory.values)
    (hstep : (step processors (runInFrame processors levels) instruction).Ends between result
      after) :
    kept <:+ after.memory.values := by
  refine suffix_of_step hkeeps ?_ ?_ h hstep
  · intro command hcommand
    exact habove command between (.own hreaches hcommand)
  · intro command entity definition prepared hcommand hprepare inner deep hvisits
    exact habove inner deep (.nested hreaches hcommand hprepare hvisits)

theorem suffix_of_reaches (hkeeps : KeepsAbove processors levels)
    (habove : StaysAbove processors (levels + 1) scope body machine kept.length)
    (h : kept <:+ machine.memory.values)
    (hreaches : Reaches processors (runInFrame processors levels) body.code
      (machine.entered scope body) rest between) :
    kept <:+ between.memory.values := by
  -- The bound holds at the instructions that are reached from the start, so that is carried along.
  have hboth := hreaches.invariant
    (P := fun code between => Reaches processors (runInFrame processors levels) body.code
      (machine.entered scope body) code between ∧ kept <:+ between.memory.values) ?_ ⟨.here, h⟩
  · exact hboth.2
  · rintro instruction code between after ⟨hreaches, h⟩ hstep
    exact ⟨hreaches.trans (.next hstep .here),
      suffix_of_step_of_reaches hkeeps habove hreaches h hstep⟩

theorem suffix_of_runCode {outcome : Except RunError Unit} {inner : Machine σ}
    (hkeeps : KeepsAbove processors levels)
    (habove : StaysAbove processors (levels + 1) scope body machine kept.length)
    (h : kept <:+ machine.memory.values)
    (hcode : (runCode processors (runInFrame processors levels) body.code).Ends
      (machine.entered scope body) outcome inner) :
    kept <:+ inner.memory.values := by
  rcases reaches_of_ends_runCode hcode with
    ⟨hreaches, -⟩ | ⟨instruction, rest, between, hreaches, hlast⟩
  · exact suffix_of_reaches hkeeps habove h hreaches
  · have hbetween := suffix_of_reaches hkeeps habove h hreaches
    rcases hlast with ⟨error, hstep, -⟩ | ⟨hstep, -⟩
    · exact suffix_of_step_of_reaches hkeeps habove hreaches hbetween hstep
    · exact suffix_of_step_of_reaches hkeeps habove hreaches hbetween hstep

end Code

end Bodies

theorem finished_of_runInFrame {processors : Processors σ} {levels : Nat} {scope : Value}
    {body : Sequence} {machine after : Machine σ} {result : Except RunError Value}
    (h : (runInFrame processors (levels + 1) scope body).Ends machine result after) :
    ∃ outcome inner, (runCode processors (runInFrame processors levels) body.code).Ends
        (machine.entered scope body) outcome inner ∧
      machine.memory.SameFrames after.memory ∧
      Memory.Finished machine.memory inner.memory result after.memory := by
  obtain ⟨outcome, inner, hcode, rfl, rfl⟩ := ends_runInFrame_succ_iff.1 h
  have hend := bodyEnd_of_runCode (balanced_runInFrame processors levels)
    (inside_entered machine scope body) hcode
  exact ⟨outcome, inner, hcode, Memory.finish_of_bodyEnd hend⟩

theorem keepsAbove_succ {processors : Processors σ} {levels : Nat}
    (h : KeepsAbove processors levels) : KeepsAbove processors (levels + 1) := by
  intro scope body machine after result kept hrun habove hkept
  obtain ⟨outcome, inner, hcode, -, hfinished⟩ := finished_of_runInFrame hrun
  have hinner := suffix_of_runCode h habove hkept hcode
  cases result with
  | ok value =>
    rw [hfinished.1]
    exact hinner
  | error error =>
    rw [show after.memory.values = _ from hfinished]
    exact Memory.suffix_cut hinner hkept.length_le

/-- A body keeps all values that no command of its run gets down to. -/
theorem keepsAbove_runInFrame (processors : Processors σ) (levels : Nat) :
    KeepsAbove processors levels := by
  induction levels with
  | zero => exact fun _ _ _ _ _ _ h => absurd h not_ends_runInFrame_zero
  | succ levels ih => exact keepsAbove_succ ih

/-- However a body ends, frames and scopes are those that it found.  The values are those that it
found, below the result if there is one, just if they are still the lowest ones when the code of the
body ends; and that is so if no command of the run takes a value from among them. -/
theorem runInFrame_isolated_iff {processors : Processors σ} {levels : Nat} {scope : Value}
    {body : Sequence} {machine after : Machine σ} {result : Except RunError Value}
    (h : (runInFrame processors (levels + 1) scope body).Ends machine result after) :
    after.memory.frames = machine.memory.frames ∧
    after.memory.scopes = machine.memory.scopes ∧
    (∃ outcome inner, (runCode processors (runInFrame processors levels) body.code).Ends
        (machine.entered scope body) outcome inner ∧
      (machine.memory.Isolated result after.memory ↔
        machine.memory.values <:+ inner.memory.values)) ∧
    (StaysAbove processors (levels + 1) scope body machine machine.memory.depth →
      machine.memory.Isolated result after.memory) := by
  obtain ⟨outcome, inner, hcode, hsame, hfinished⟩ := finished_of_runInFrame h
  refine ⟨hsame.frames, hsame.scopes, ⟨outcome, inner, hcode, hfinished.isolated_iff⟩, ?_⟩
  intro habove
  exact hfinished.isolated_iff.2 (suffix_of_runCode (keepsAbove_runInFrame processors levels)
    habove List.suffix_rfl hcode)

/-- A body that pushes its result leaves it on top of the value that was there. -/
theorem runInFrame_isolated_iff_putNil :
    ∃ after : Machine Unit,
      (runInFrame Processors.empty 1 .nil (Sequence.start "<main>" .top).putNil.leave).Ends
        ⟨(Memory.ofRoot .nil).push (.literal (.integer 7)), ⟨(), #[]⟩⟩ (.ok .nil) after ∧
      after.memory.values = [.nil, .literal (.integer 7)] := by
  refine ⟨_, rfl, ?_⟩
  obtain ⟨-, -, ⟨outcome, inner, hcode, hiff⟩, -⟩ := runInFrame_isolated_iff
    (show (runInFrame Processors.empty 1 .nil (Sequence.start "<main>" .top).putNil.leave).Ends
      (⟨(Memory.ofRoot .nil).push (.literal (.integer 7)), ⟨(), #[]⟩⟩ : Machine Unit)
      (.ok .nil) _ from rfl)
  cases (show some _ = some (outcome, inner) from hcode)
  exact hiff.2 (List.suffix_cons _ _)

/-- A body that takes off a value that it did not push fails, and that value is gone: the nil that
the body pushed stands in its place. -/
theorem runInFrame_not_isolated :
    ∃ (body : Sequence) (machine after : Machine Unit) (error : RunError),
      (runInFrame Processors.empty 1 .nil body).Ends machine (.error error) after ∧
      ¬ machine.memory.Isolated (.error error) after.memory := by
  refine ⟨(Sequence.start "<main>" .top).pop.putNil.leave,
    ⟨(Memory.ofRoot .nil).push (.literal (.integer 7)), ⟨(), #[]⟩⟩, _, .frameImbalance 1 0, rfl, ?_⟩
  intro h
  cases h

end Machine

end ClassIndex
