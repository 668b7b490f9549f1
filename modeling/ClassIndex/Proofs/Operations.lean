import ClassIndex.Proofs.Frames

/-!
# Operations on the memory

Whoever holds a memory may carry out its operations in any order.  Levels are bare numbers, so a
body may be finished with one that has nothing to do with the frames that are open.

`Memory.Marked` holds of the memory all the same: the root scope stays, and the marks of the open
frames never point above the scopes, nor below the mark of a frame further out.  `Memory.Aligned`
says more, that every frame goes with one scope; it is kept unless frames are opened or closed bare,
that is, without their scopes.

`FinishEnds` lists the ways in which a body can be finished.  In a marked memory, cutting back in
two steps is the same as cutting back in one, so that all failures leave the same memory behind
(`finish_of_operations`).
-/

namespace ClassIndex

namespace Memory

/-- What can be asked of a memory. -/
inductive Operation where
  | push (value : Value)
  | pop
  | openFrame
  | closeFrame
  | enter (scope : Value)
  | leave
  /-- The level and the outcome may be any. -/
  | finish (level : Nat) (outcome : Except RunError Unit)

/-- Whether an operation is about a frame without its scope. -/
def Operation.isBare : Operation → Bool
  | openFrame | closeFrame => true
  | _ => false

/-- What an attempt leaves behind: if it failed, the memory as it was. -/
def attempted (memory : Memory) : Except RunError (Value × Memory) → Memory
  | .ok (_, after) => after
  | .error _ => memory

/-- The memory after an operation. -/
def perform (memory : Memory) : Operation → Memory
  | .push value => memory.push value
  | .pop => memory.attempted memory.pop
  | .openFrame => memory.openFrame
  | .closeFrame => memory.attempted memory.closeFrame
  | .enter scope => memory.enter scope
  | .leave => memory.attempted memory.leave
  | .finish level outcome => (memory.finish level outcome).2

/-- The memory after some operations. -/
def performAll (memory : Memory) (operations : List Operation) : Memory :=
  operations.foldl perform memory

variable {memory after left : Memory} {root value : Value} {level : Nat}

/-! ## Cutting back -/

theorem exists_frame_at (h : level < memory.frameDepth) :
    ∃ upper mark lower, memory.frames = upper ++ mark :: lower ∧ lower.length = level := by
  have hsplit := List.take_append_drop (memory.frameDepth - (level + 1)) memory.frames
  have hlength : (memory.frames.drop (memory.frameDepth - (level + 1))).length = level + 1 := by
    rw [List.length_drop, ← frameDepth]
    omega
  obtain ⟨mark, lower, hlower⟩ := List.exists_cons_of_length_eq_add_one hlength
  rw [hlower] at hsplit hlength
  exact ⟨_, mark, lower, hsplit.symm, by simpa using hlength⟩

/-- The frame at a position, counted from the outermost one, has as many frames below it. -/
theorem getElem?_reverse_frames {upper lower : List FrameMark} {mark : FrameMark}
    (h : memory.frames = upper ++ mark :: lower) :
    memory.frames.reverse[lower.length]? = some mark := by
  simp [h]

theorem unwind_of_le (h : memory.frameDepth ≤ level) : memory.unwind level = memory := by
  unfold unwind
  rw [List.getElem?_eq_none (by rw [List.length_reverse]; exact h)]

theorem unwind_of_frames {upper lower : List FrameMark} {mark : FrameMark}
    (h : memory.frames = upper ++ mark :: lower) :
    memory.unwind lower.length =
      { memory.cutScopes mark with values := cut mark.depth memory.values, frames := lower } := by
  have hcut : cut lower.length memory.frames = lower := by
    rw [h, ← List.singleton_append, ← List.append_assoc, cut_length_append]
  unfold unwind
  simp only [getElem?_reverse_frames h, hcut]

theorem leave_eq_ok_iff :
    memory.leave = .ok (value, left) ↔
      ∃ mark lower, memory.frames = mark :: lower ∧ memory.depth = mark.depth + 1 ∧
        memory.top? = some value ∧ left = { memory.cutScopes mark with frames := lower } := by
  rcases hframes : memory.frames with _ | ⟨mark, lower⟩
  · simp [leave, hframes]
  · rw [leave_of_frames hframes, top?]
    by_cases hdepth : memory.depth = mark.depth + 1
    · cases hvalues : memory.values with
      | nil => simp [depth, hvalues] at hdepth
      | cons top rest =>
        simp only [if_pos hdepth, Except.ok.injEq, Prod.mk.injEq, List.head?_cons,
          Option.some.injEq]
        constructor
        · rintro ⟨rfl, rfl⟩
          exact ⟨mark, lower, rfl, hdepth, rfl, rfl⟩
        · rintro ⟨_, _, hsame, -, htop, hleft⟩
          obtain ⟨rfl, rfl⟩ := List.cons.inj hsame
          exact ⟨htop, hleft.symm⟩
    · simp [hdepth]

theorem leave_eq_error_iff {error : RunError} :
    memory.leave = .error error ↔
      memory.frames = [] ∧ error = .noOpenFrame ∨
      ∃ mark lower, memory.frames = mark :: lower ∧ memory.depth ≠ mark.depth + 1 ∧
        error = .frameImbalance 1 (memory.depth - mark.depth) := by
  rcases hframes : memory.frames with _ | ⟨mark, lower⟩
  · simp [leave, hframes, eq_comm]
  · rw [leave_of_frames hframes]
    by_cases hdepth : memory.depth = mark.depth + 1
    · cases hvalues : memory.values with
      | nil => simp [depth, hvalues] at hdepth
      | cons => simp [hdepth]
    · simp only [if_neg hdepth, Except.error.injEq, reduceCtorEq, false_and, false_or]
      constructor
      · rintro rfl
        exact ⟨mark, lower, rfl, hdepth, rfl⟩
      · rintro ⟨_, _, hsame, -, herror⟩
        obtain ⟨rfl, rfl⟩ := List.cons.inj hsame
        exact herror.symm

/-! ## Finishing a body -/

/-- The ways in which a body can be finished. -/
inductive FinishEnds (memory : Memory) (level : Nat) :
    Except RunError Unit → Except RunError Value × Memory → Prop
  | failed (error : RunError) :
      FinishEnds memory level (.error error) (.error error, memory.unwind level)
  | closed {value : Value} (hdepth : memory.frameDepth = level)
      (htop : memory.top? = some value) : FinishEnds memory level (.ok ()) (.ok value, memory)
  | empty (hdepth : memory.frameDepth = level) (hvalues : memory.values = []) :
      FinishEnds memory level (.ok ()) (.error .stackUnderflow, memory)
  | missing (hdepth : memory.frameDepth < level) :
      FinishEnds memory level (.ok ()) (.error .noOpenFrame, memory)
  | stuck {error : RunError} (hdepth : level < memory.frameDepth)
      (hleave : memory.leave = .error error) :
      FinishEnds memory level (.ok ()) (.error error, memory.unwind level)
  | left {value : Value} {left : Memory} (hdepth : memory.frameDepth = level + 1)
      (hleave : memory.leave = .ok (value, left)) :
      FinishEnds memory level (.ok ()) (.ok value, left)
  | nested {value : Value} {left : Memory} (hdepth : level + 1 < memory.frameDepth)
      (hleave : memory.leave = .ok (value, left)) :
      FinishEnds memory level (.ok ()) (.error .noOpenFrame, left.unwind level)

theorem frameDepth_of_leave (h : memory.leave = .ok (value, left)) :
    left.frameDepth + 1 = memory.frameDepth ∧ left.top? = some value := by
  obtain ⟨mark, lower, hframes, -, htop, rfl⟩ := leave_eq_ok_iff.1 h
  refine ⟨?_, htop⟩
  rw [frameDepth, frameDepth, hframes, List.length_cons]

theorem FinishEnds.finish_eq {outcome : Except RunError Unit}
    {ending : Except RunError Value × Memory} (h : FinishEnds memory level outcome ending) :
    memory.finish level outcome = ending := by
  cases h with
  | failed error => rfl
  | closed hdepth htop => simp [finish, leaveAbove, hdepth, htop]
  | empty hdepth hvalues =>
    simp [finish, leaveAbove, hdepth, top?, hvalues, unwind_of_le (Nat.le_of_eq hdepth)]
  | missing hdepth =>
    simp [finish, leaveAbove, Nat.not_lt_of_gt hdepth, Nat.ne_of_lt hdepth,
      unwind_of_le (Nat.le_of_lt hdepth)]
  | stuck hdepth hleave => simp [finish, leaveAbove, hdepth, hleave, Except.map]
  | left hdepth hleave =>
    obtain ⟨hleft, htop⟩ := frameDepth_of_leave hleave
    have hlevel : _ = level := Nat.succ.inj (hleft.trans hdepth)
    simp [finish, leaveAbove, hdepth, hleave, Except.map, hlevel, htop]
  | nested hdepth hleave =>
    obtain ⟨hleft, -⟩ := frameDepth_of_leave hleave
    have hlevel : _ ≠ level := Nat.ne_of_gt (Nat.lt_of_succ_lt_succ (hleft ▸ hdepth))
    simp [finish, leaveAbove, Nat.lt_of_succ_lt hdepth, hleave, Except.map, hlevel]

theorem finishEnds (memory : Memory) (level : Nat) (outcome : Except RunError Unit) :
    FinishEnds memory level outcome (memory.finish level outcome) := by
  suffices h : ∃ ending, FinishEnds memory level outcome ending by
    obtain ⟨ending, hending⟩ := h
    rw [hending.finish_eq]
    exact hending
  cases outcome with
  | error error => exact ⟨_, .failed error⟩
  | ok _ =>
    rcases Nat.lt_trichotomy memory.frameDepth level with hfewer | hsame | hmore
    · exact ⟨_, .missing hfewer⟩
    · cases htop : memory.top? with
      | none => exact ⟨_, .empty hsame (List.head?_eq_none_iff.1 htop)⟩
      | some value => exact ⟨_, .closed hsame htop⟩
    · rcases hleave : memory.leave with error | ⟨value, left⟩
      · exact ⟨_, .stuck hmore hleave⟩
      · by_cases hone : memory.frameDepth = level + 1
        · exact ⟨_, .left hone hleave⟩
        · exact ⟨_, .nested (by omega) hleave⟩

/-- The frames from one on are gone, and with them the scopes above its mark. -/
def CutBack (memory after : Memory) : Prop :=
  ∃ upper mark lower, memory.frames = upper ++ mark :: lower ∧ after.frames = lower ∧
    after.scopes = (memory.cutScopes mark).scopes

theorem cutBack_of_leave (h : memory.leave = .ok (value, left)) : memory.CutBack left := by
  obtain ⟨mark, lower, hframes, -, -, rfl⟩ := leave_eq_ok_iff.1 h
  exact ⟨[], mark, lower, hframes, rfl, rfl⟩

/-- A property that is kept whenever frames are cut back is kept by finishing a body. -/
theorem finish_invariant {P : Memory → Prop} (h : P memory)
    (hcut : ∀ {memory after}, P memory → memory.CutBack after → P after) (level : Nat)
    (outcome : Except RunError Unit) : P (memory.finish level outcome).2 := by
  -- Stated for every memory, since the innermost frame may be left before the rest is unwound.
  have hunwind {memory : Memory} (h : P memory) : P (memory.unwind level) := by
    by_cases hlevel : level < memory.frameDepth
    · obtain ⟨upper, mark, lower, hframes, rfl⟩ := exists_frame_at hlevel
      rw [unwind_of_frames hframes]
      exact hcut h ⟨upper, mark, lower, hframes, rfl, rfl⟩
    · rw [unwind_of_le (Nat.not_lt.1 hlevel)]
      exact h
  have hends := finishEnds memory level outcome
  generalize memory.finish level outcome = ending at hends ⊢
  cases hends with
  | failed _ | stuck _ _ => exact hunwind h
  | closed _ _ | empty _ _ | missing _ => exact h
  | left _ hleave => exact hcut h (cutBack_of_leave hleave)
  | nested _ hleave => exact hunwind (hcut h (cutBack_of_leave hleave))

/-! ## Marks -/

/-- The root scope is `root`, no mark lies below it or above the innermost scope, and none lies
above the mark of a frame further in. -/
structure Marked (root : Value) (memory : Memory) : Prop where
  root : memory.scopes.getLast? = some root
  ordered : memory.frames.Pairwise fun inner outer => outer.scopeDepth ≤ inner.scopeDepth
  bounds : ∀ mark ∈ memory.frames, 1 ≤ mark.scopeDepth ∧ mark.scopeDepth ≤ memory.scopeDepth

theorem marked_ofRoot (root : Value) : (ofRoot root).Marked root :=
  ⟨rfl, List.Pairwise.nil, nofun⟩

theorem Marked.congr (h : memory.Marked root) (hframes : after.frames = memory.frames)
    (hscopes : after.scopes = memory.scopes) : after.Marked root where
  root := hscopes ▸ h.root
  ordered := hframes ▸ h.ordered
  bounds := by
    rw [scopeDepth, hscopes, hframes]
    exact h.bounds

/-- The mark of a new frame may be followed by a scope. -/
theorem Marked.mark (h : memory.Marked root) (hframes : after.frames = memory.mark :: memory.frames)
    (hscopes : memory.scopes <:+ after.scopes) : after.Marked root where
  root := by
    obtain ⟨upper, hupper⟩ := hscopes
    rw [← hupper, List.getLast?_append, h.root, Option.some_or]
  ordered := by
    rw [hframes]
    exact List.pairwise_cons.2 ⟨fun outer houter => (h.bounds outer houter).2, h.ordered⟩
  bounds := by
    have hpos : 1 ≤ memory.scopeDepth := List.length_pos_iff.2 memory.scopes_ne_nil
    have hle : memory.scopeDepth ≤ after.scopeDepth := hscopes.length_le
    rw [hframes]
    refine List.forall_mem_cons.2 ⟨⟨hpos, hle⟩, fun mark hmark => ?_⟩
    exact ⟨(h.bounds mark hmark).1, Nat.le_trans (h.bounds mark hmark).2 hle⟩

section Marks

variable {upper lower : List FrameMark} {mark : FrameMark}

theorem Marked.scopes_cutScopes (h : memory.Marked root) (hmark : mark ∈ memory.frames) :
    (memory.cutScopes mark).scopes = cut mark.scopeDepth memory.scopes := by
  show cut (max mark.scopeDepth 1) memory.scopes = _
  rw [Nat.max_eq_left (h.bounds mark hmark).1]

theorem Marked.scopeDepth_cutScopes (h : memory.Marked root) (hmark : mark ∈ memory.frames) :
    (memory.cutScopes mark).scopeDepth = mark.scopeDepth := by
  rw [scopeDepth, h.scopes_cutScopes hmark, length_cut]
  exact Nat.min_eq_left (h.bounds mark hmark).2

theorem Marked.le_of_frames (h : memory.Marked root)
    (hframes : memory.frames = upper ++ mark :: lower) :
    ∀ outer ∈ lower, outer.scopeDepth ≤ mark.scopeDepth := by
  have hordered := h.ordered
  rw [hframes, List.pairwise_append, List.pairwise_cons] at hordered
  exact hordered.2.1.1

theorem Marked.cutBack (h : memory.Marked root) (hcut : memory.CutBack after) :
    after.Marked root := by
  obtain ⟨upper, mark, lower, hframes, hlower, hscopes⟩ := hcut
  have hmark : mark ∈ memory.frames := by simp [hframes]
  have hdepth : after.scopeDepth = mark.scopeDepth := by
    rw [scopeDepth, hscopes]
    exact h.scopeDepth_cutScopes hmark
  have hsuffix : lower <:+ memory.frames := by
    rw [hframes]
    exact (List.suffix_cons mark lower).trans (List.suffix_append upper (mark :: lower))
  refine ⟨?_, hlower ▸ h.ordered.sublist hsuffix.sublist, fun outer houter => ?_⟩
  · have hpos := (h.bounds mark hmark).1
    have hstack : memory.scopes.length ≠ 0 := by simp [memory.scopes_ne_nil]
    rw [hscopes, h.scopes_cutScopes hmark, cut, List.getLast?_drop, if_neg (by omega), h.root]
  · rw [hlower] at houter
    rw [hdepth]
    exact ⟨(h.bounds outer (hsuffix.mem houter)).1, h.le_of_frames hframes outer houter⟩

end Marks

theorem attempted_invariant {P : Memory → Prop} {attempt : Except RunError (Value × Memory)}
    (h : P memory) (hok : ∀ value left, attempt = .ok (value, left) → P left) :
    P (memory.attempted attempt) := by
  cases attempt with
  | error error => exact h
  | ok ending => exact hok ending.1 ending.2 rfl

theorem sameFrames_of_pop (h : memory.pop = .ok (value, left)) : memory.SameFrames left := by
  unfold pop at h
  split at h
  · simp at h
  · simp only [Except.ok.injEq, Prod.mk.injEq] at h
    exact ⟨h.2 ▸ rfl, h.2 ▸ rfl⟩

theorem frames_of_closeFrame (h : memory.closeFrame = .ok (value, left)) :
    left.frames <:+ memory.frames ∧ left.scopes = memory.scopes := by
  unfold closeFrame at h
  split at h
  · simp at h
  · rename_i mark lower hframes
    split at h
    · split at h
      · simp at h
      · simp only [Except.ok.injEq, Prod.mk.injEq] at h
        rw [← h.2, hframes]
        exact ⟨List.suffix_cons mark lower, rfl⟩
    · simp at h

theorem Marked.perform (h : memory.Marked root) (operation : Operation) :
    (memory.perform operation).Marked root := by
  cases operation with
  | push value => exact h.congr rfl rfl
  | pop =>
    refine attempted_invariant h fun value left hpop => ?_
    exact h.congr (sameFrames_of_pop hpop).frames (sameFrames_of_pop hpop).scopes
  | openFrame => exact h.mark rfl (List.suffix_refl _)
  | closeFrame =>
    refine attempted_invariant h fun value left hclose => ?_
    obtain ⟨hsuffix, hscopes⟩ := frames_of_closeFrame hclose
    refine ⟨hscopes ▸ h.root, h.ordered.sublist hsuffix.sublist, fun mark hmark => ?_⟩
    rw [scopeDepth, hscopes]
    exact h.bounds mark (hsuffix.mem hmark)
  | enter scope => exact h.mark rfl (List.suffix_cons scope memory.scopes)
  | leave => exact attempted_invariant h fun _ _ hleave => h.cutBack (cutBack_of_leave hleave)
  | finish level outcome => exact finish_invariant h (fun h hcut => h.cutBack hcut) level outcome

theorem marked_performAll (root : Value) (operations : List Operation) :
    ((ofRoot root).performAll operations).Marked root := by
  unfold performAll
  exact List.foldlRecOn operations _ (marked_ofRoot root) fun _ h operation _ => h.perform operation

/-! ## Frames with their scopes -/

/-- Every frame has one scope, the one above its mark, and there is the root scope besides. -/
structure Aligned (memory : Memory) : Prop where
  depth : memory.scopeDepth = memory.frameDepth + 1
  marks : ∀ mark lower, mark :: lower <:+ memory.frames → mark.scopeDepth = lower.length + 1

theorem aligned_ofRoot (root : Value) : (ofRoot root).Aligned :=
  ⟨rfl, fun mark lower h => by simp [ofRoot] at h⟩

namespace Aligned

theorem congr (h : memory.Aligned) (hsame : memory.SameFrames after) : after.Aligned := by
  constructor
  · rw [scopeDepth, frameDepth, hsame.scopes, hsame.frames]
    exact h.depth
  · rw [hsame.frames]
    exact h.marks

theorem enter (h : memory.Aligned) (scope : Value) : (memory.enter scope).Aligned := by
  refine ⟨congrArg (· + 1) h.depth, fun mark lower hsuffix => ?_⟩
  rcases List.suffix_cons_iff.1 hsuffix with hsame | hold
  · obtain ⟨rfl, rfl⟩ := List.cons.inj hsame
    exact h.depth
  · exact h.marks mark lower hold

theorem cutBack (h : memory.Aligned) (hcut : memory.CutBack after) : after.Aligned := by
  obtain ⟨upper, mark, lower, hframes, hlower, hscopes⟩ := hcut
  have hsuffix : mark :: lower <:+ memory.frames := hframes ▸ List.suffix_append upper _
  have hmark : mark.scopeDepth = lower.length + 1 := h.marks mark lower hsuffix
  have hframeDepth : lower.length + 1 ≤ memory.frameDepth := hsuffix.length_le
  constructor
  · rw [scopeDepth, hscopes, frameDepth, hlower]
    show (cut (max mark.scopeDepth 1) memory.scopes).length = _
    rw [length_cut, ← scopeDepth, h.depth]
    omega
  · intro other rest hrest
    rw [hlower] at hrest
    exact h.marks other rest (hrest.trans ((List.suffix_cons mark lower).trans hsuffix))

/-- Operations that take frames and scopes together keep them aligned. -/
theorem perform (h : memory.Aligned) {operation : Operation} (hplain : operation.isBare = false) :
    (memory.perform operation).Aligned := by
  cases operation with
  | push value => exact h.congr ⟨rfl, rfl⟩
  | pop => exact attempted_invariant h fun _ _ hpop => h.congr (sameFrames_of_pop hpop)
  | openFrame | closeFrame => simp [Operation.isBare] at hplain
  | enter scope => exact h.enter scope
  | leave => exact attempted_invariant h fun _ _ hleave => h.cutBack (cutBack_of_leave hleave)
  | finish level outcome => exact finish_invariant h (fun h hcut => h.cutBack hcut) level outcome

theorem scopeDepth_of_getElem? (h : memory.Aligned) {position : Nat} {mark : FrameMark}
    (hmark : memory.frames.reverse[position]? = some mark) : mark.scopeDepth = position + 1 := by
  have hlt : position < memory.frameDepth := by
    rw [frameDepth, ← List.length_reverse]
    exact (List.getElem?_eq_some_iff.1 hmark).1
  obtain ⟨upper, other, lower, hframes, rfl⟩ := exists_frame_at hlt
  rw [getElem?_reverse_frames hframes, Option.some.injEq] at hmark
  exact hmark ▸ h.marks other lower (hframes ▸ List.suffix_append upper _)

end Aligned

/-- Without bare frames every frame goes with one scope. -/
theorem aligned_performAll (root : Value) {operations : List Operation}
    (hplain : ∀ operation ∈ operations, operation.isBare = false) :
    ((ofRoot root).performAll operations).Aligned := by
  unfold performAll
  exact List.foldlRecOn operations _ (aligned_ofRoot root) fun _ h operation hoperation =>
    h.perform (hplain operation hoperation)

/-- A frame that is opened bare has no scope. -/
example : ¬ ((ofRoot .nil).perform .openFrame).Aligned :=
  fun h => absurd h.depth (by decide)

/-! ## What comes of finishing -/

/-- The innermost frame holds exactly one value. -/
def HoldsOne (memory : Memory) : Prop :=
  ∃ mark lower, memory.frames = mark :: lower ∧ memory.depth = mark.depth + 1

/-- The errors of finishing a body that did not fail itself. -/
inductive ClosingError (memory : Memory) (level : Nat) : RunError → Prop
  /-- The innermost frame does not hold one value. -/
  | imbalance {mark : FrameMark} {lower : List FrameMark} (hlevel : level < memory.frameDepth)
      (hframes : memory.frames = mark :: lower) (hdepth : memory.depth ≠ mark.depth + 1) :
      ClosingError memory level (.frameImbalance 1 (memory.depth - mark.depth))
  | tooFew (hlevel : memory.frameDepth < level) : ClosingError memory level .noOpenFrame
  | tooMany (hlevel : level + 1 < memory.frameDepth) (hone : memory.HoldsOne) :
      ClosingError memory level .noOpenFrame
  | nothing (hlevel : memory.frameDepth = level) (hvalues : memory.values = []) :
      ClosingError memory level .stackUnderflow

theorem holdsOne_iff : memory.HoldsOne ↔ ∃ value left, memory.leave = .ok (value, left) := by
  constructor
  · rintro ⟨mark, lower, hframes, hdepth⟩
    cases hvalues : memory.values with
    | nil => simp [depth, hvalues] at hdepth
    | cons value rest =>
      have htop : memory.top? = some value := by rw [top?, hvalues, List.head?_cons]
      exact ⟨value, _, leave_eq_ok_iff.2 ⟨mark, lower, hframes, hdepth, htop, rfl⟩⟩
  · rintro ⟨value, left, hleave⟩
    obtain ⟨mark, lower, hframes, hdepth, -⟩ := leave_eq_ok_iff.1 hleave
    exact ⟨mark, lower, hframes, hdepth⟩

/-- A body that did not fail has a result iff its frame is closed already, or is the only one to be
closed and holds one value. -/
theorem finish_eq_ok_iff {outcome : Except RunError Unit} :
    (memory.finish level outcome).1 = .ok value ↔
      outcome = .ok () ∧ memory.top? = some value ∧
        (memory.frameDepth = level ∨ memory.frameDepth = level + 1 ∧ memory.HoldsOne) := by
  constructor
  · intro h
    have hends := finishEnds memory level outcome
    generalize memory.finish level outcome = ending at hends h
    cases hends with
    | failed _ | empty _ _ | missing _ | stuck _ _ | nested _ _ => simp at h
    | closed hdepth htop => exact ⟨rfl, htop.trans (by simpa using h), Or.inl hdepth⟩
    | left hdepth hleave =>
      obtain ⟨mark, lower, -, -, htop, -⟩ := leave_eq_ok_iff.1 hleave
      exact ⟨rfl, htop.trans (by simpa using h),
        Or.inr ⟨hdepth, holdsOne_iff.2 ⟨_, _, hleave⟩⟩⟩
  · rintro ⟨rfl, htop, hdepth | ⟨hdepth, hone⟩⟩
    · rw [(FinishEnds.closed hdepth htop).finish_eq]
    · obtain ⟨other, left, hleave⟩ := holdsOne_iff.1 hone
      obtain ⟨mark, lower, -, -, hother, -⟩ := leave_eq_ok_iff.1 hleave
      rw [(FinishEnds.left hdepth hleave).finish_eq, ← Option.some.inj (hother.symm.trans htop)]

/-- The error of finishing a body is its own, or else that of closing its frame. -/
theorem finish_eq_error_iff {outcome : Except RunError Unit} {error : RunError} :
    (memory.finish level outcome).1 = .error error ↔
      outcome = .error error ∨ outcome = .ok () ∧ memory.ClosingError level error := by
  constructor
  · intro h
    have hends := finishEnds memory level outcome
    generalize memory.finish level outcome = ending at hends h
    cases hends with
    | failed error => exact Or.inl (congrArg Except.error (Except.error.inj h))
    | closed _ _ | left _ _ => simp at h
    | empty hdepth hvalues => exact Or.inr ⟨rfl, Except.error.inj h ▸ .nothing hdepth hvalues⟩
    | missing hdepth => exact Or.inr ⟨rfl, Except.error.inj h ▸ .tooFew hdepth⟩
    | stuck hdepth hleave =>
      refine Or.inr ⟨rfl, Except.error.inj h ▸ ?_⟩
      rcases leave_eq_error_iff.1 hleave with ⟨hnone, -⟩ | ⟨mark, lower, hframes, hne, rfl⟩
      · simp [frameDepth, hnone] at hdepth
      · exact .imbalance hdepth hframes hne
    | nested hdepth hleave =>
      exact Or.inr ⟨rfl, Except.error.inj h ▸ .tooMany hdepth (holdsOne_iff.2 ⟨_, _, hleave⟩)⟩
  · rintro (rfl | ⟨rfl, hclosing⟩)
    · rfl
    · cases hclosing with
      | imbalance hlevel hframes hdepth =>
        have hleave := leave_eq_error_iff.2 (Or.inr ⟨_, _, hframes, hdepth, rfl⟩)
        rw [(FinishEnds.stuck hlevel hleave).finish_eq]
      | tooFew hlevel => rw [(FinishEnds.missing hlevel).finish_eq]
      | tooMany hlevel hone =>
        obtain ⟨value, left, hleave⟩ := holdsOne_iff.1 hone
        rw [(FinishEnds.nested hlevel hleave).finish_eq]
      | nothing hlevel hvalues => rw [(FinishEnds.empty hlevel hvalues).finish_eq]

theorem cut_cut {α : Type} {low high : Nat} (h : low ≤ high) (stack : List α) :
    cut low (cut high stack) = cut low stack := by
  unfold cut
  rw [List.drop_drop, List.length_drop]
  congr 1
  omega

/-- Closing the innermost frame first makes no difference to what is unwound: its mark lies above
that of the frame to which the memory is cut back. -/
theorem Marked.unwind_leave (h : memory.Marked root) (hleave : memory.leave = .ok (value, left))
    (hlevel : level + 1 < memory.frameDepth) : left.unwind level = memory.unwind level := by
  obtain ⟨mark, rest, hframes, -, -, rfl⟩ := leave_eq_ok_iff.1 hleave
  have hrest : level < ({ memory.cutScopes mark with frames := rest } : Memory).frameDepth := by
    rw [frameDepth, hframes, List.length_cons] at hlevel
    exact Nat.lt_of_succ_lt_succ hlevel
  obtain ⟨upper, outer, lower, hsplit, rfl⟩ := exists_frame_at hrest
  have hframes' : memory.frames = (mark :: upper) ++ outer :: lower := by
    rw [hframes, List.cons_append]
    exact congrArg (mark :: ·) hsplit
  have houter : outer ∈ rest := by
    rw [show rest = upper ++ outer :: lower from hsplit]
    exact List.mem_append_right upper List.mem_cons_self
  have hmax : max outer.scopeDepth 1 ≤ max mark.scopeDepth 1 := by
    have hinner : memory.frames = [] ++ mark :: rest := hframes
    have hle := h.le_of_frames hinner outer houter
    omega
  rw [unwind_of_frames hsplit, unwind_of_frames hframes']
  -- On the left the scopes are cut twice, the second time at least as deep as the first.
  simp only [cutScopes, cut_cut hmax]

/-- After every failure the memory is cut back to the level, wherever the failure was noticed. -/
theorem Marked.finish_eq_unwind (h : memory.Marked root) {outcome : Except RunError Unit}
    {error : RunError} (herror : (memory.finish level outcome).1 = .error error) :
    (memory.finish level outcome).2 = memory.unwind level := by
  have hends := finishEnds memory level outcome
  generalize memory.finish level outcome = ending at hends herror ⊢
  cases hends with
  | failed _ | stuck _ _ => rfl
  | closed _ _ | left _ _ => simp at herror
  | empty hdepth _ => exact (unwind_of_le (Nat.le_of_eq hdepth)).symm
  | missing hdepth => exact (unwind_of_le (Nat.le_of_lt hdepth)).symm
  | nested hdepth hleave => exact h.unwind_leave hleave hdepth

/-- On success at most the innermost frame is closed. -/
theorem Marked.finish_of_ok (h : memory.Marked root) {outcome : Except RunError Unit}
    (hok : (memory.finish level outcome).1 = .ok value) :
    memory.frameDepth = level ∧ (memory.finish level outcome).2 = memory ∨
      ∃ mark lower, memory.frames = mark :: lower ∧ lower.length = level ∧
        memory.depth = mark.depth + 1 ∧ (memory.finish level outcome).2.frames = lower ∧
        (memory.finish level outcome).2.scopes = cut mark.scopeDepth memory.scopes ∧
        (memory.finish level outcome).2.values = memory.values := by
  have hends := finishEnds memory level outcome
  generalize memory.finish level outcome = ending at hends hok ⊢
  cases hends with
  | failed _ | empty _ _ | missing _ | stuck _ _ | nested _ _ => simp at hok
  | closed hdepth _ => exact Or.inl ⟨hdepth, rfl⟩
  | left hdepth hleave =>
    obtain ⟨mark, lower, hframes, hone, -, rfl⟩ := leave_eq_ok_iff.1 hleave
    rw [frameDepth, hframes, List.length_cons, Nat.add_right_cancel_iff] at hdepth
    exact Or.inr ⟨mark, lower, hframes, hdepth, hone, rfl,
      h.scopes_cutScopes (hframes ▸ List.mem_cons_self), rfl⟩

/-- Cutting back to a level takes the stacks to the heights in the mark of the frame there. -/
theorem Marked.unwind_of_getElem? (h : memory.Marked root) {mark : FrameMark}
    (hmark : memory.frames.reverse[level]? = some mark) :
    (memory.unwind level).frames = cut level memory.frames ∧
      (memory.unwind level).values = cut mark.depth memory.values ∧
      (memory.unwind level).scopes = cut mark.scopeDepth memory.scopes := by
  have hmem : mark ∈ memory.frames := List.mem_reverse.1 (List.mem_of_getElem? hmark)
  unfold unwind
  simp only [hmark, true_and]
  exact h.scopes_cutScopes hmem

/-- The contract of finishing a body, whatever was done to the memory before and whether or not
`level` belongs to a frame that is open. -/
theorem finish_of_operations (root : Value) (operations : List Operation) (level : Nat)
    (outcome : Except RunError Unit) :
    let memory := (ofRoot root).performAll operations
    let ending := memory.finish level outcome
    (∀ value, ending.1 = .ok value ↔
      outcome = .ok () ∧ memory.top? = some value ∧
        (memory.frameDepth = level ∨ memory.frameDepth = level + 1 ∧ memory.HoldsOne)) ∧
    (∀ value, ending.1 = .ok value →
      ending.2.frameDepth = level ∧
        (memory.frameDepth = level ∧ ending.2 = memory ∨
          ∃ mark lower, memory.frames = mark :: lower ∧ lower.length = level ∧
            memory.depth = mark.depth + 1 ∧ ending.2.frames = lower ∧
            ending.2.scopes = cut mark.scopeDepth memory.scopes ∧
            ending.2.values = memory.values)) ∧
    (∀ error, ending.1 = .error error ↔
      outcome = .error error ∨ outcome = .ok () ∧ memory.ClosingError level error) ∧
    ∀ error, ending.1 = .error error →
      (memory.frameDepth ≤ level → ending.2 = memory) ∧
        (level < memory.frameDepth →
          ∃ mark, memory.frames.reverse[level]? = some mark ∧
            ending.2.frames = cut level memory.frames ∧
            ending.2.values = cut mark.depth memory.values ∧
            ending.2.scopes = cut mark.scopeDepth memory.scopes) := by
  intro memory ending
  have hmarked : memory.Marked root := marked_performAll root operations
  refine ⟨fun _ => finish_eq_ok_iff, fun value hok => ?_, fun _ => finish_eq_error_iff,
    fun error herror => ?_⟩
  · have hends := hmarked.finish_of_ok hok
    refine ⟨?_, hends⟩
    rcases hends with ⟨hdepth, hsame⟩ | ⟨mark, lower, -, hlevel, -, hlower, -⟩
    · exact (congrArg frameDepth hsame).trans hdepth
    · exact (congrArg List.length hlower).trans hlevel
  · have hunwind : ending.2 = memory.unwind level := hmarked.finish_eq_unwind herror
    refine ⟨fun hle => hunwind.trans (unwind_of_le hle), fun hlt => ?_⟩
    obtain ⟨upper, mark, lower, hframes, hlower⟩ := exists_frame_at hlt
    have hmark := hlower ▸ getElem?_reverse_frames hframes
    exact ⟨mark, hmark, hunwind ▸ hmarked.unwind_of_getElem? hmark⟩

/-- Two bodies are open and the inner one can be left, but the level is that of the outer one. -/
theorem finish_of_two_bodies :
    let memory := (ofRoot .nil).performAll [.push .nil, .enter .nil, .enter .nil, .push .nil]
    memory.frameDepth = 2 ∧ (memory.finish 0 (.ok ())).1 = .error .noOpenFrame ∧
      ∃ mark, memory.frames.reverse[0]? = some mark ∧ mark = ⟨1, 1⟩ ∧
        (memory.finish 0 (.ok ())).2.values = cut mark.depth memory.values := by
  intro memory
  obtain ⟨-, -, herrors, hafter⟩ := finish_of_operations .nil
    [.push .nil, .enter .nil, .enter .nil, .push .nil] 0 (.ok ())
  have herror := (herrors .noOpenFrame).2
    (Or.inr ⟨rfl, .tooMany (by decide) ⟨_, _, rfl, rfl⟩⟩)
  obtain ⟨mark, hmark, -, hvalues, -⟩ := (hafter .noOpenFrame herror).2 (by decide)
  exact ⟨rfl, herror, mark, hmark, (Option.some.inj hmark).symm, hvalues⟩

end Memory

end ClassIndex
