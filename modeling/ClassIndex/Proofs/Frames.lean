import ClassIndex.Machine.Memory

/-!
# Frames

A body is run between `Memory.enter` and `Memory.finish`.  `Memory.Inside` describes the memory
while the frame of the body is open, `Memory.SameFrames` the memory once it is closed again.
`leave_of_inside` and `finish_of_bodyEnd` say that closing a frame gives back the frames and the
scopes that were there when it was opened, on success and on failure.  About the values they say
less: a failure cuts them back to the height of the mark, and that is all (`Finished`).
-/

namespace ClassIndex

namespace Memory

/-- The innermost frame and the innermost scope are those of a body with `scope` as its `self` that
was entered on `before`. -/
structure Inside (before : Memory) (scope : Value) (memory : Memory) : Prop where
  frames : memory.frames = before.mark :: before.frames
  scopes : memory.scopes = scope :: before.scopes

/-- Frames and scopes are those of `before`. -/
structure SameFrames (before memory : Memory) : Prop where
  frames : memory.frames = before.frames
  scopes : memory.scopes = before.scopes

/-- There is one value more than on `before`, the result, or an error and no value more. -/
def Yields (before : Memory) : Except RunError Value → Memory → Prop
  | .ok value, after => after.top? = some value ∧ after.depth = before.depth + 1
  | .error _, after => after.depth ≤ before.depth

/-- What the end of a body that leaves `inner` makes of the values: a result is their top and the
only one above those of `before`, and after a failure they are cut back to the old height. -/
def Finished (before inner : Memory) : Except RunError Value → Memory → Prop
  | .ok value, after =>
    after.values = inner.values ∧ after.top? = some value ∧ after.depth = before.depth + 1
  | .error _, after => after.values = cut before.depth inner.values

/-! ## Cutting stacks -/

section Cut

variable {α : Type}

theorem cut_length_append (upper lower : List α) : cut lower.length (upper ++ lower) = lower := by
  unfold cut
  rw [List.length_append, Nat.add_sub_cancel, List.drop_left]

theorem cut_length_cons (top : α) (lower : List α) : cut lower.length (top :: lower) = lower :=
  cut_length_append [top] lower

end Cut

/-! ## Entering and leaving -/

section Bodies

variable {before memory : Memory} {scope : Value}

theorem inside_enter (before : Memory) (scope : Value) :
    before.Inside scope (before.enter scope) :=
  ⟨rfl, rfl⟩

theorem Inside.congr {memory' : Memory} (h : before.Inside scope memory)
    (hframes : memory'.frames = memory.frames) (hscopes : memory'.scopes = memory.scopes) :
    before.Inside scope memory' :=
  ⟨hframes.trans h.frames, hscopes.trans h.scopes⟩

/-- Without a root scope on `before`, cutting would keep the scope of the body in its place. -/
theorem Inside.scopes_cutScopes (h : before.Inside scope memory) :
    (memory.cutScopes before.mark).scopes = before.scopes := by
  have hpos : 1 ≤ before.scopes.length := List.length_pos_iff.2 before.scopes_ne_nil
  show cut (max before.scopes.length 1) memory.scopes = before.scopes
  rw [Nat.max_eq_left hpos, h.scopes, cut_length_cons]

theorem leave_of_frames {mark : FrameMark} {rest : List FrameMark}
    (h : memory.frames = mark :: rest) :
    memory.leave =
      if memory.depth = mark.depth + 1 then
        match memory.values with
        | [] => .error .stackUnderflow
        | value :: _ => .ok (value, { memory.cutScopes mark with frames := rest })
      else .error (.frameImbalance 1 (memory.depth - mark.depth)) := by
  rcases memory with ⟨values, scopes, hscopes, frames⟩
  subst h
  unfold leave closeFrame
  dsimp only
  split
  · cases values <;> rfl
  · rfl

/-- A body that can be left has one value above its mark, and its frame and its scope are closed. -/
theorem leave_of_inside {value : Value} {left : Memory}
    (h : before.Inside scope memory) (hleave : memory.leave = .ok (value, left)) :
    before.SameFrames left ∧ left.values = memory.values ∧ memory.top? = some value ∧
      memory.depth = before.depth + 1 := by
  rw [leave_of_frames h.frames] at hleave
  split at hleave
  · rename_i hdepth
    rcases hvalues : memory.values with _ | ⟨top, rest⟩
    · rw [hvalues] at hleave
      cases hleave
    · rw [hvalues] at hleave
      cases hleave
      exact ⟨⟨rfl, h.scopes_cutScopes⟩, hvalues, by rw [top?, hvalues]; rfl, hdepth⟩
  · cases hleave

theorem exists_leave_of_inside (h : before.Inside scope memory)
    (hdepth : memory.depth = before.depth + 1) :
    ∃ value left, memory.leave = .ok (value, left) := by
  have hleave := leave_of_frames h.frames
  rw [if_pos (show memory.depth = before.mark.depth + 1 from hdepth)] at hleave
  rcases hvalues : memory.values with _ | ⟨top, lower⟩
  · rw [depth, hvalues] at hdepth
    cases hdepth
  · rw [hvalues] at hleave
    exact ⟨top, _, hleave⟩

theorem unwind_of_inside (h : before.Inside scope memory) :
    before.SameFrames (memory.unwind before.frameDepth) ∧
      (memory.unwind before.frameDepth).values = cut before.depth memory.values := by
  have hmark : memory.frames.reverse[before.frameDepth]? = some before.mark := by
    rw [h.frames, List.reverse_cons, frameDepth, ← List.length_reverse,
      List.getElem?_concat_length]
  unfold unwind
  rw [hmark]
  refine ⟨⟨?_, h.scopes_cutScopes⟩, rfl⟩
  show cut before.frames.length memory.frames = before.frames
  rw [h.frames, cut_length_cons]

/-! ## Finishing a body -/

/-- How a body that was entered on `before` stands at its end: its frame is still open, or, if it
did not fail, it was left with one value. -/
inductive BodyEnd (before : Memory) (scope : Value) : Except RunError Unit → Memory → Prop
  | inside {outcome : Except RunError Unit} {memory : Memory} (h : before.Inside scope memory) :
      BodyEnd before scope outcome memory
  | left {memory : Memory} (h : before.SameFrames memory)
      (hdepth : memory.depth = before.depth + 1) : BodyEnd before scope (.ok ()) memory

theorem finish_of_sameFrames (h : before.SameFrames memory)
    (hdepth : memory.depth = before.depth + 1) :
    ∃ value, memory.top? = some value ∧
      memory.finish before.frameDepth (.ok ()) = (.ok value, memory) := by
  have hclosed : memory.frameDepth = before.frameDepth := congrArg List.length h.frames
  rcases hvalues : memory.values with _ | ⟨top, rest⟩
  · rw [depth, hvalues] at hdepth
    cases hdepth
  · have htop : memory.top? = some top := by rw [top?, hvalues]; rfl
    refine ⟨top, htop, ?_⟩
    unfold finish leaveAbove
    rw [if_neg (by omega)]
    simp only [hclosed, if_true, htop]

theorem frameDepth_lt_of_inside (h : before.Inside scope memory) :
    before.frameDepth < memory.frameDepth := by
  rw [frameDepth, frameDepth, h.frames, List.length_cons]
  exact Nat.lt_succ_self _

theorem finish_of_inside_of_leave {value : Value} {left : Memory}
    (h : before.Inside scope memory) (hleave : memory.leave = .ok (value, left)) :
    memory.finish before.frameDepth (.ok ()) = (.ok value, left) := by
  obtain ⟨hsame, hvalues, htop, -⟩ := leave_of_inside h hleave
  have hclosed : left.frameDepth = before.frameDepth := congrArg List.length hsame.frames
  have htop' : left.top? = some value := by rw [top?, hvalues]; exact htop
  unfold finish leaveAbove
  simp only [if_pos (frameDepth_lt_of_inside h), hleave, Except.map, hclosed, if_true, htop']

/-- The end of a body gives back frames and scopes, however the body went. -/
theorem finish_of_bodyEnd {outcome : Except RunError Unit}
    (h : before.BodyEnd scope outcome memory) :
    before.SameFrames (memory.finish before.frameDepth outcome).2 ∧
      Finished before memory (memory.finish before.frameDepth outcome).1
        (memory.finish before.frameDepth outcome).2 := by
  cases h with
  | left h hdepth =>
    obtain ⟨value, htop, hfinish⟩ := finish_of_sameFrames h hdepth
    rw [hfinish]
    exact ⟨h, rfl, htop, hdepth⟩
  | inside h =>
    rcases outcome with error | ⟨⟩
    · exact unwind_of_inside h
    · rcases hleave : memory.leave with error | ⟨value, left⟩
      · unfold finish leaveAbove
        rw [if_pos (frameDepth_lt_of_inside h), hleave]
        exact unwind_of_inside h
      · obtain ⟨hsame, hvalues, htop, hdepth⟩ := leave_of_inside h hleave
        rw [finish_of_inside_of_leave h hleave]
        refine ⟨hsame, hvalues, ?_, ?_⟩
        · rw [top?, hvalues]
          exact htop
        · rw [depth, hvalues]
          exact hdepth

/-- A body that ends with one value more than before has a result. -/
theorem exists_finish_of_bodyEnd (h : before.BodyEnd scope (.ok ()) memory)
    (hdepth : memory.depth = before.depth + 1) :
    ∃ value left, memory.finish before.frameDepth (.ok ()) = (.ok value, left) := by
  cases h with
  | left h _ =>
    obtain ⟨value, -, hfinish⟩ := finish_of_sameFrames h hdepth
    exact ⟨value, memory, hfinish⟩
  | inside h =>
    obtain ⟨value, left, hleave⟩ := exists_leave_of_inside h hdepth
    exact ⟨value, left, finish_of_inside_of_leave h hleave⟩

theorem Finished.yields {inner after : Memory} {result : Except RunError Value}
    (h : Finished before inner result after) : before.Yields result after := by
  cases result with
  | ok value => exact h.2
  | error error =>
    show after.values.length ≤ before.depth
    rw [show after.values = _ from h, length_cut]
    exact Nat.min_le_left _ _

end Bodies

end Memory

end ClassIndex
