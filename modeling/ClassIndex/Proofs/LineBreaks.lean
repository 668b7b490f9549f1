import ClassIndex.Code.Listing
import Mathlib.Data.List.Basic

/-!
# Texts on one line

Everything that a listing writes by itself is free of line breaks: numbers, quoted texts and the
names of instructions.
-/

namespace ClassIndex

namespace Text

/-- The text has no line break in it. -/
def OneLine (text : String) : Prop :=
  '\n' ∉ text.toList

instance (text : String) : Decidable (OneLine text) :=
  inferInstanceAs (Decidable ('\n' ∉ text.toList))

theorem OneLine.append {text other : String} (htext : OneLine text) (hother : OneLine other) :
    OneLine (text ++ other) := by
  rw [OneLine, String.toList_append, List.mem_append, not_or]
  exact ⟨htext, hother⟩

theorem oneLine_ofList {chars : List Char} : OneLine (String.ofList chars) ↔ '\n' ∉ chars := by
  rw [OneLine, String.toList_ofList]

theorem oneLine_intercalate {separator : String} {texts : List String}
    (hseparator : OneLine separator) (htexts : ∀ text ∈ texts, OneLine text) :
    OneLine (separator.intercalate texts) := by
  induction texts with
  | nil => simp [OneLine]
  | cons text rest ih =>
    obtain ⟨htext, hrest⟩ := List.forall_mem_cons.1 htexts
    cases rest with
    | nil => rwa [String.intercalate_singleton]
    | cons other rest =>
      rw [String.intercalate_cons_cons]
      exact (htext.append hseparator).append (ih hrest)

/-! ## Numbers -/

theorem newline_notMem_toDigits {base : Nat} (hbase : 1 < base) (number : Nat) :
    '\n' ∉ Nat.toDigits base number := by
  have hdigit (digit : Nat) : '\n' ≠ digit.digitChar := (Nat.digitChar_ne '\n' rfl).symm
  induction number using Nat.strongRecOn with
  | ind number ih =>
    rw [Nat.toDigits_eq_if hbase]
    split
    · simp [hdigit]
    · rename_i hlarge
      have hsmaller : number / base < number := Nat.div_lt_self (by omega) hbase
      rw [List.mem_append, List.mem_singleton, not_or]
      exact ⟨ih _ hsmaller, hdigit _⟩

theorem oneLine_toString_nat (number : Nat) : OneLine (toString number) := by
  rw [Nat.toString_eq_repr, Nat.repr_eq_ofList_toDigits, oneLine_ofList]
  exact newline_notMem_toDigits (by decide) number

theorem oneLine_toString_int (number : Int) : OneLine (toString number) := by
  cases number with
  | ofNat number => exact oneLine_toString_nat number
  | negSucc number =>
    have hsign : OneLine "-" := by decide
    exact hsign.append (oneLine_toString_nat (number + 1))

/-! ## Quoted texts -/

theorem newline_notMem_escape (c : Char) : '\n' ∉ escape c := by
  unfold escape
  split
  all_goals try decide
  rename_i hnewline _ _ _
  split
  · simp [codePointEscape, newline_notMem_toDigits]
  · simpa [eq_comm] using hnewline

/-- A line break in a quoted text is escaped. -/
theorem oneLine_quote (text : String) : OneLine (quote text) := by
  rw [quote, oneLine_ofList]
  simp [newline_notMem_escape]

end Text

open Text

namespace NumberFormat

variable {format : NumberFormat}

theorem newline_notMem_digits (d : Decimal) : '\n' ∉ d.digits :=
  newline_notMem_toDigits (by decide) _

theorem oneLine_renderPositional (h : OneLine format.wholeEnd) (d : Decimal) :
    OneLine (format.renderPositional d) := by
  unfold renderPositional
  split
  · refine OneLine.append (oneLine_ofList.2 ?_) h
    simp [newline_notMem_digits]
  · rw [oneLine_ofList]
    -- The point stands between two parts of one row of digits.
    have hpadded (zeros : Nat) : '\n' ∉ List.replicate zeros '0' ++ d.digits := by
      simp [newline_notMem_digits]
    simp only [List.mem_append, List.mem_singleton, not_or]
    exact ⟨⟨fun hmem => hpadded _ (List.mem_of_mem_take hmem), by decide⟩,
      fun hmem => hpadded _ (List.mem_of_mem_drop hmem)⟩

theorem oneLine_renderScientific (d : Decimal) : OneLine (renderScientific d) := by
  have htake : '\n' ∉ d.digits.take 1 := fun h => newline_notMem_digits d (List.mem_of_mem_take h)
  have hdrop : '\n' ∉ d.digits.drop 1 := fun h => newline_notMem_digits d (List.mem_of_mem_drop h)
  have hmark : OneLine "e" := by decide
  unfold renderScientific
  refine (OneLine.append (oneLine_ofList.2 ?_) hmark).append (oneLine_toString_int _)
  rw [List.mem_append, not_or]
  refine ⟨htake, ?_⟩
  split
  · exact List.not_mem_nil
  · rw [List.mem_cons, not_or]
    exact ⟨by decide, hdrop⟩

theorem oneLine_render (h : OneLine format.wholeEnd) (x : Binary64) :
    OneLine (format.render x) := by
  have hmagnitude (magnitude : Binary64.Magnitude) :
      OneLine (format.renderMagnitude magnitude) := by
    unfold renderMagnitude
    split
    · decide
    · decide
    · exact OneLine.append (by decide) h
    · dsimp only
      split
      · exact oneLine_renderPositional h _
      · exact oneLine_renderScientific _
  unfold render
  split
  · exact OneLine.append (by decide) (hmagnitude _)
  · exact hmagnitude _

end NumberFormat

/-! ## Names and operands -/

theorem Opcode.oneLine_name (opcode : Opcode) : OneLine opcode.name := by
  cases opcode <;> decide

theorem SequenceKind.oneLine_name (kind : SequenceKind) : OneLine kind.name := by
  cases kind <;> decide

/-- What a listing shows of a literal as it stands. -/
def Literal.raw? : Literal → Option String
  | symbol name => some name
  | _ => none

theorem Literal.oneLine_text {literal : Literal} (h : ∀ name ∈ literal.raw?, OneLine name) :
    OneLine literal.text := by
  cases literal with
  | symbol name => exact OneLine.append (by decide) (h name rfl)
  | string text => exact oneLine_quote text
  | integer value => exact oneLine_toString_int value.toInt
  | float value => exact NumberFormat.oneLine_render (by decide) value
  | bool value => cases value <;> decide

/-- What a listing shows of an operand as it stands. -/
def Operand.raw? : Operand → Option String
  | nil => none
  | literal value => value.raw?
  | sequence body => some body.label
  | call site => some site.method

theorem Operand.oneLine_text {operand : Operand} (h : ∀ name ∈ operand.raw?, OneLine name) :
    OneLine operand.text := by
  cases operand with
  | nil => decide
  | literal value => exact Literal.oneLine_text h
  | sequence body =>
    have hopen : OneLine "<iseq:" := by decide
    exact (hopen.append (h body.label rfl)).append (by decide)
  | call site =>
    have hopen : OneLine "<calldata!mid:" := by decide
    have hcount : OneLine ", argc:" := by decide
    exact (((hopen.append (h site.method rfl)).append hcount).append
      (oneLine_toString_nat _)).append (by decide)

theorem Instruction.oneLine_text {instruction : Instruction}
    (h : ∀ operand ∈ instruction.operands, ∀ name ∈ operand.raw?, OneLine name) :
    OneLine instruction.text := by
  unfold text
  split
  · exact instruction.opcode.oneLine_name
  · have hoperands := oneLine_intercalate (by decide : OneLine ", ")
      (List.forall_mem_map.2 fun operand hoperand => Operand.oneLine_text (h operand hoperand))
    have hspace : OneLine " " := by decide
    exact (instruction.opcode.oneLine_name.append hspace).append hoperands

/-! ## Blocks -/

namespace Sequence

/-- The texts that a block shows as they stand. -/
def rawTexts (s : Sequence) : List String :=
  s.label :: s.path ::
    (s.locals ++ s.code.flatMap fun instruction => instruction.operands.filterMap Operand.raw?)

/-- No text that is shown as it stands has a line break in it, at any depth. -/
def SingleLine (s : Sequence) : Prop :=
  ∀ body ∈ s.unfold, ∀ text ∈ body.rawTexts, OneLine text

theorem isDigit_of_mem_paddedPosition {position : Nat} {c : Char}
    (h : c ∈ (paddedPosition position).toList) : c.isDigit = true := by
  rw [paddedPosition, String.toList_ofList, List.mem_append] at h
  rcases h with hmem | hmem
  · rw [List.eq_of_mem_replicate hmem]
    rfl
  · exact Nat.isDigit_of_mem_toDigits (by decide) (by decide) hmem

theorem oneLine_paddedPosition (position : Nat) : OneLine (paddedPosition position) :=
  fun h => absurd (isDigit_of_mem_paddedPosition h) (by decide)

theorem oneLine_header {s : Sequence} (hlabel : OneLine s.label) (hpath : OneLine s.path) :
    OneLine s.header := by
  have hopen : OneLine "== disasm: <iseq:" := by decide
  have hat : OneLine "@" := by decide
  have hclose : OneLine "> (" := by decide
  exact (((((hopen.append hlabel).append hat).append hpath).append hclose).append
    s.kind.oneLine_name).append (by decide)

theorem oneLine_of_mem_localsLines {s : Sequence} (h : ∀ name ∈ s.locals, OneLine name)
    {line : String} (hline : line ∈ s.localsLines) : OneLine line := by
  rw [localsLines] at hline
  split at hline
  · cases hline
  · have hopen : OneLine "local table: [" := by decide
    rw [List.mem_singleton.1 hline]
    exact (hopen.append (oneLine_intercalate (by decide) h)).append (by decide)

theorem oneLine_of_mem_codeLines {s : Sequence}
    (h : ∀ instruction ∈ s.code, ∀ operand ∈ instruction.operands, ∀ name ∈ operand.raw?,
      OneLine name)
    {line : String} (hline : line ∈ s.codeLines) : OneLine line := by
  obtain ⟨⟨instruction, position⟩, hmem, heq⟩ := List.mem_map.1 hline
  have hinstruction : instruction ∈ s.code := List.fst_mem_of_mem_zipIdx hmem
  have hspace : OneLine " " := by decide
  rw [← heq]
  exact ((oneLine_paddedPosition position).append hspace).append
    (Instruction.oneLine_text (h instruction hinstruction))

/-- A line of a block is one line if the texts in it are. -/
theorem oneLine_of_mem_blockLines {s : Sequence} (h : ∀ text ∈ s.rawTexts, OneLine text)
    {line : String} (hline : line ∈ s.blockLines) : OneLine line := by
  simp only [rawTexts, List.forall_mem_cons, List.forall_mem_append] at h
  obtain ⟨hlabel, hpath, hlocals, hcode⟩ := h
  rw [blockLines, List.mem_cons, List.mem_append] at hline
  rcases hline with hheader | hlocal | hinstruction
  · rw [hheader]
    exact oneLine_header hlabel hpath
  · exact oneLine_of_mem_localsLines hlocals hlocal
  · refine oneLine_of_mem_codeLines (fun instruction hmem operand hoperand name hname => ?_)
      hinstruction
    exact hcode name (List.mem_flatMap.2
      ⟨instruction, hmem, List.mem_filterMap.2 ⟨operand, hoperand, hname⟩⟩)

end Sequence

end ClassIndex
