import ClassIndex.Machine.Error
import ClassIndex.Machine.Value

/-!
# The memory

The memory of the machine is made of three stacks: values, scopes, the innermost of which is `self`,
and frames. A frame marks how high the other two stacks were when a nested body was entered.
Closing a frame takes exactly one value above its mark, the result of the body, and leaves it in
place. All three stacks are lists with their top at the head. The scope of the top level is always
there, so that the stack of scopes is never empty.
-/

namespace ClassIndex

/-- How high the stacks were when a frame was opened. -/
structure FrameMark where
  depth : Nat
  scopeDepth : Nat
  deriving DecidableEq, Repr, Inhabited

/-- The memory of one interpretation. -/
structure Memory where
  values : List Value := []
  /-- The scopes, from the innermost one to the root. -/
  scopes : List Value
  /-- The root is never taken away. -/
  scopes_ne_nil : scopes ≠ []
  frames : List FrameMark := []

namespace Memory

/-- A memory with nothing but a root scope. -/
def ofRoot (root : Value) : Memory where
  scopes := [root]
  scopes_ne_nil := List.cons_ne_nil root []

instance : Inhabited Memory := ⟨ofRoot .nil⟩

/-- The lowest `height` elements of a stack. -/
def cut {α : Type} (height : Nat) (stack : List α) : List α :=
  stack.drop (stack.length - height)

theorem length_cut {α : Type} (height : Nat) (stack : List α) :
    (cut height stack).length = min height stack.length := by
  unfold cut
  rw [List.length_drop]
  omega

theorem cut_ne_nil {α : Type} {height : Nat} {stack : List α} (hheight : 0 < height)
    (hstack : stack ≠ []) : cut height stack ≠ [] := by
  have hpos : 0 < stack.length := List.length_pos_iff.2 hstack
  rw [← List.length_pos_iff, length_cut]
  omega

/-! ## Values and scopes -/

def depth (memory : Memory) : Nat :=
  memory.values.length

def scopeDepth (memory : Memory) : Nat :=
  memory.scopes.length

def frameDepth (memory : Memory) : Nat :=
  memory.frames.length

/-- The current `self`. -/
def self (memory : Memory) : Value :=
  memory.scopes.head?.getD .nil

/-- The scope of the top level. -/
def root (memory : Memory) : Value :=
  memory.scopes.getLast?.getD .nil

def push (value : Value) (memory : Memory) : Memory :=
  { memory with values := value :: memory.values }

/-- Takes off the top value. -/
def pop (memory : Memory) : Except RunError (Value × Memory) :=
  match memory.values with
  | [] => .error .stackUnderflow
  | value :: rest => .ok (value, { memory with values := rest })

/-- The top value. -/
def top? (memory : Memory) : Option Value :=
  memory.values.head?

/-! ## Frames -/

/-- The mark of the present heights. -/
def mark (memory : Memory) : FrameMark :=
  ⟨memory.depth, memory.scopeDepth⟩

/-- Opens a frame without a scope of its own. -/
def openFrame (memory : Memory) : Memory :=
  { memory with frames := memory.mark :: memory.frames }

/-- Closes the innermost frame and yields the one value in it, which stays where it is. -/
def closeFrame (memory : Memory) : Except RunError (Value × Memory) :=
  match memory.frames with
  | [] => .error .noOpenFrame
  | mark :: rest =>
    if memory.depth = mark.depth + 1 then
      match memory.values with
      | [] => .error .stackUnderflow
      | value :: _ => .ok (value, { memory with frames := rest })
    else
      .error (.frameImbalance 1 (memory.depth - mark.depth))

/-- The memory without the scopes above a mark. The root scope always stays. -/
def cutScopes (mark : FrameMark) (memory : Memory) : Memory :=
  { memory with
    scopes := cut (max mark.scopeDepth 1) memory.scopes
    scopes_ne_nil := cut_ne_nil (by omega) memory.scopes_ne_nil }

/-- Enters a nested body: a new frame, and a scope for its `self`. The frame starts without a
value. -/
def enter (self : Value) (memory : Memory) : Memory :=
  { memory.openFrame with
    scopes := self :: memory.scopes
    scopes_ne_nil := List.cons_ne_nil self memory.scopes }

/-- Closes the innermost frame together with its scope. -/
def leave (memory : Memory) : Except RunError (Value × Memory) :=
  match memory.frames with
  | [] => .error .noOpenFrame
  | mark :: _ => do
    let (value, memory) ← memory.closeFrame
    return (value, memory.cutScopes mark)

/-- Cuts all stacks back to the frame at position `level`, counted from the outermost one. Without
such a frame nothing happens. -/
def unwind (level : Nat) (memory : Memory) : Memory :=
  match memory.frames.reverse[level]? with
  | none => memory
  | some mark =>
    { memory.cutScopes mark with
      values := cut mark.depth memory.values
      frames := cut level memory.frames }

/-- Leaves the innermost scope if more than `level` frames are open. -/
def leaveAbove (level : Nat) (memory : Memory) : Except RunError Memory :=
  if level < memory.frameDepth then memory.leave.map (·.2) else .ok memory

/-- Finishes a body that was entered when `level` frames were open. A body that ended by itself has
closed its frame already; one that ran off its end is closed here. On every failure, that of the
body included, the memory is cut back to where the frame was opened. -/
def finish (level : Nat) (outcome : Except RunError Unit) (memory : Memory) :
    Except RunError Value × Memory :=
  match outcome with
  | .error error => (.error error, memory.unwind level)
  | .ok () =>
    match memory.leaveAbove level with
    | .error error => (.error error, memory.unwind level)
    | .ok left =>
      if left.frameDepth = level then
        match left.top? with
        | some value => (.ok value, left)
        | none => (.error .stackUnderflow, left.unwind level)
      else
        (.error .noOpenFrame, left.unwind level)

end Memory

end ClassIndex
