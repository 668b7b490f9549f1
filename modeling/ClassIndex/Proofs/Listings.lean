import ClassIndex.Program.Demo
import ClassIndex.Proofs.LineBreaks
import ClassIndex.Proofs.Trees
import Mathlib.Algebra.Ring.Nat

/-!
# Reading a listing back

A listing is plain text, and its blocks are not marked as nested or closed.  As long as no name in
it has a line break, the lines of the text are those of the blocks (`Sequence.lines_listing`), and
the first two words of a line tell what it is: only a header starts with `==`, and only a line of
code has the name of an opcode as its second word.  `Sequence.skeleton` reads the opcodes of every
block by these rules, from the last line up, and `Sequence.skeleton_listing` says that it finds
those of the unfolded sequences.  So two sequences with the same listing have the same opcodes
(`Sequence.listing_determines_opcodes`).
-/

namespace ClassIndex

namespace Text

/-- The lines of a text; what follows the last line break counts as one. -/
def lines (text : String) : List (List Char) :=
  text.toList.splitOn '\n'

/-- A text of ended lines has these lines, and nothing after the last one. -/
theorem lines_join {texts : List String} (h : ∀ text ∈ texts, OneLine text) :
    lines (String.join (texts.map fun text => text ++ "\n")) = texts.map String.toList ++ [[]] := by
  unfold lines
  rw [String.toList_join, List.flatMap_map]
  induction texts with
  | nil => rfl
  | cons text rest ih =>
    obtain ⟨htext, hrest⟩ := List.forall_mem_cons.1 h
    have hended : (text ++ "\n").toList = text.toList ++ ['\n'] := String.toList_append
    rw [List.flatMap_cons, hended, List.append_assoc, List.singleton_append,
      List.splitOn_append_cons_self_of_not_mem htext, ih hrest, List.map_cons, List.cons_append]

theorem count_newline_join {texts : List String} (h : ∀ text ∈ texts, OneLine text) :
    (String.join (texts.map fun text => text ++ "\n")).toList.count '\n' = texts.length := by
  rw [String.toList_join, List.flatMap_map]
  induction texts with
  | nil => rfl
  | cons text rest ih =>
    obtain ⟨htext, hrest⟩ := List.forall_mem_cons.1 h
    have hended : (text ++ "\n").toList = text.toList ++ ['\n'] := String.toList_append
    rw [List.flatMap_cons, hended, List.count_append, List.count_append, ih hrest,
      List.count_eq_zero.2 htext, List.count_singleton_self, List.length_cons]
    omega

/-- The words of a line, taken apart at every space. -/
def words (line : List Char) : List (List Char) :=
  line.splitOn ' '

theorem words_append_space {word : List Char} (h : ' ' ∉ word) (rest : List Char) :
    words (word ++ ' ' :: rest) = word :: words rest :=
  List.splitOn_append_cons_self_of_not_mem h rest

theorem prefix_append {chars : List Char} {text other : String} (h : chars <+: text.toList) :
    chars <+: (text ++ other).toList := by
  rw [String.toList_append]
  exact h.trans (List.prefix_append _ _)

end Text

open Text

namespace Opcode

theorem ofName?_name (opcode : Opcode) : ofName? opcode.name = some opcode := by
  cases opcode <;> decide

theorem space_notMem_name (opcode : Opcode) : ' ' ∉ opcode.name.toList := by
  cases opcode <;> decide

end Opcode

/-! ## Words of the lines -/

theorem Instruction.exists_words_text (instruction : Instruction) :
    ∃ others, words instruction.text.toList = instruction.opcode.name.toList :: others := by
  have hname := instruction.opcode.space_notMem_name
  unfold text
  split
  · exact ⟨[], List.splitOn_eq_singleton hname⟩
  · rw [String.toList_append, String.toList_append, List.append_assoc]
    exact ⟨_, words_append_space hname _⟩

namespace Sequence

theorem space_notMem_paddedPosition (position : Nat) : ' ' ∉ (paddedPosition position).toList :=
  fun h => absurd (isDigit_of_mem_paddedPosition h) (by decide)

/-- A line of code shows the position and the opcode as its first two words. -/
theorem exists_words_codeLine (position : Nat) (instruction : Instruction) :
    ∃ others, words (paddedPosition position ++ " " ++ instruction.text).toList =
      (paddedPosition position).toList :: instruction.opcode.name.toList :: others := by
  obtain ⟨others, hwords⟩ := instruction.exists_words_text
  refine ⟨others, ?_⟩
  rw [String.toList_append, String.toList_append, List.append_assoc, ← hwords]
  exact words_append_space (space_notMem_paddedPosition position) _

theorem exists_words_header (s : Sequence) :
    ∃ others, words s.header.toList = ['=', '='] :: others := by
  have hopen : "== disasm: <iseq:".toList = ['=', '='] ++ ' ' :: "disasm: <iseq:".toList := by
    decide
  have hstart : "== disasm: <iseq:".toList <+: s.header.toList := by
    unfold header
    iterate 6 apply prefix_append
    exact List.prefix_refl _
  obtain ⟨rest, hrest⟩ := hstart
  have hmark : ' ' ∉ ['=', '='] := by decide
  rw [← hrest, hopen, List.append_assoc, List.cons_append]
  exact ⟨_, words_append_space hmark _⟩

theorem exists_words_of_mem_localsLines {s : Sequence} {line : String}
    (h : line ∈ s.localsLines) :
    ∃ others, words line.toList = "local".toList :: "table:".toList :: others := by
  have hopen : "local table: [".toList =
      "local".toList ++ ' ' :: ("table:".toList ++ ' ' :: ['[']) := by
    decide
  have hstart : "local table: [".toList <+: line.toList := by
    rw [localsLines] at h
    split at h
    · cases h
    · rw [List.mem_singleton.1 h]
      exact prefix_append (prefix_append List.prefix_rfl)
  obtain ⟨rest, hrest⟩ := hstart
  have hlocal : ' ' ∉ "local".toList := by decide
  have htable : ' ' ∉ "table:".toList := by decide
  rw [← hrest, hopen, List.append_assoc, List.cons_append, List.append_assoc, List.cons_append,
    words_append_space hlocal, words_append_space htable]
  exact ⟨_, rfl⟩

theorem ofDigitChars_paddedPosition (position : Nat) :
    Nat.ofDigitChars 10 (paddedPosition position).toList 0 = position := by
  rw [paddedPosition, String.toList_ofList, Nat.ofDigitChars_append,
    Nat.ofDigitChars_replicate_zero, Nat.mul_zero, Nat.ofDigitChars_ten_toDigits]

/-! ## Reading -/

/-- The number that a line starts with. -/
def positionOn (line : List Char) : Nat :=
  Nat.ofDigitChars 10 ((words line).headD []) 0

/-- The opcode that is the second word of a line. -/
def opcodeOn? (line : List Char) : Option Opcode :=
  (words line)[1]?.bind fun name => Opcode.ofName? (String.ofList name)

/-- Whether a line starts a block. -/
def isHeader (line : List Char) : Bool :=
  (words line).head? == some ['=', '=']

/-- Takes in the line above those read so far: the opcodes since the last header, and the blocks. -/
def readLine (line : List Char) (read : List Opcode × List (List Opcode)) :
    List Opcode × List (List Opcode) :=
  if isHeader line then ([], read.1 :: read.2) else ((opcodeOn? line).toList ++ read.1, read.2)

/-- The opcodes of each block of a listing, read from its last line up. -/
def skeleton (listing : String) : List (List Opcode) :=
  ((lines listing).foldr readLine ([], [])).2

theorem isHeader_header (s : Sequence) : isHeader s.header.toList = true := by
  obtain ⟨others, hwords⟩ := s.exists_words_header
  rw [isHeader, hwords]
  rfl

theorem isHeader_of_mem_localsLines {s : Sequence} {line : String} (h : line ∈ s.localsLines) :
    isHeader line.toList = false := by
  obtain ⟨others, hwords⟩ := exists_words_of_mem_localsLines h
  rw [isHeader, hwords]
  rfl

theorem opcodeOn?_of_mem_localsLines {s : Sequence} {line : String} (h : line ∈ s.localsLines) :
    opcodeOn? line.toList = none := by
  obtain ⟨others, hwords⟩ := exists_words_of_mem_localsLines h
  rw [opcodeOn?, hwords, List.getElem?_cons_succ, List.getElem?_cons_zero, Option.bind_some]
  decide

theorem isHeader_codeLine (position : Nat) (instruction : Instruction) :
    isHeader (paddedPosition position ++ " " ++ instruction.text).toList = false := by
  obtain ⟨others, hwords⟩ := exists_words_codeLine position instruction
  rw [isHeader, hwords, List.head?_cons, Option.some_beq_some, beq_eq_false_iff_ne]
  intro h
  have hmark : '=' ∈ (paddedPosition position).toList := h ▸ List.mem_cons_self
  exact absurd (isDigit_of_mem_paddedPosition hmark) (by decide)

theorem opcodeOn?_codeLine (position : Nat) (instruction : Instruction) :
    opcodeOn? (paddedPosition position ++ " " ++ instruction.text).toList =
      some instruction.opcode := by
  obtain ⟨others, hwords⟩ := exists_words_codeLine position instruction
  rw [opcodeOn?, hwords, List.getElem?_cons_succ, List.getElem?_cons_zero, Option.bind_some,
    String.ofList_toList, Opcode.ofName?_name]

theorem positionOn_codeLine (position : Nat) (instruction : Instruction) :
    positionOn (paddedPosition position ++ " " ++ instruction.text).toList = position := by
  obtain ⟨others, hwords⟩ := exists_words_codeLine position instruction
  rw [positionOn, hwords, List.headD_cons, ofDigitChars_paddedPosition]

theorem codeLines_eq (s : Sequence) :
    s.codeLines = s.code.zipIdx.map fun entry =>
      paddedPosition entry.2 ++ " " ++ entry.1.text :=
  rfl

/-- The lines of code are numbered from zero. -/
theorem positions_codeLines (s : Sequence) :
    s.codeLines.map (fun line => positionOn line.toList) = List.range s.code.length := by
  have hlines : s.codeLines.map (fun line => positionOn line.toList) =
      s.code.zipIdx.map fun entry => entry.2 := by
    simp only [codeLines_eq, List.map_map, Function.comp_def, positionOn_codeLine]
  rw [hlines, List.range_eq_range', ← List.zipIdx_map_snd 0 s.code]

/-- The opcodes of a sequence's own instructions. -/
def opcodes (s : Sequence) : List Opcode :=
  s.code.map (·.opcode)

theorem opcodes_codeLines (s : Sequence) :
    s.codeLines.filterMap (fun line => opcodeOn? line.toList) = s.opcodes := by
  have hlines : s.codeLines.filterMap (fun line => opcodeOn? line.toList) =
      s.code.zipIdx.map fun entry => entry.1.opcode := by
    simp only [codeLines_eq, List.filterMap_map, Function.comp_def, opcodeOn?_codeLine,
      List.filterMap_eq_map']
  have hcode : (s.code.zipIdx.map Prod.fst).map (·.opcode) = s.opcodes := by
    rw [List.zipIdx_map_fst, opcodes]
  rw [hlines, ← hcode, List.map_map]
  rfl

theorem foldr_readLine {texts : List (List Char)} (h : ∀ line ∈ texts, isHeader line = false)
    (block : List Opcode) (blocks : List (List Opcode)) :
    texts.foldr readLine (block, blocks) =
      (texts.filterMap opcodeOn? ++ block, blocks) := by
  induction texts with
  | nil => rfl
  | cons line rest ih =>
    obtain ⟨hline, hrest⟩ := List.forall_mem_cons.1 h
    rw [List.foldr_cons, ih hrest, readLine, hline, List.filterMap_cons]
    cases opcodeOn? line <;> rfl

/-- The opcodes on the lines of a block below its header. -/
theorem filterMap_opcodeOn?_block (s : Sequence) :
    ((s.localsLines ++ s.codeLines).map String.toList).filterMap opcodeOn? = s.opcodes := by
  have hlocals : (s.localsLines.map String.toList).filterMap opcodeOn? = [] :=
    List.filterMap_eq_nil_iff.2 (List.forall_mem_map.2 fun _ => opcodeOn?_of_mem_localsLines)
  have hcode : (s.codeLines.map String.toList).filterMap opcodeOn? = s.opcodes := by
    rw [List.filterMap_map]
    exact s.opcodes_codeLines
  rw [List.map_append, List.filterMap_append, hlocals, hcode, List.nil_append]

/-- Reading a block gives the opcodes of its sequence. -/
theorem foldr_readLine_blockLines (s : Sequence) (blocks : List (List Opcode)) :
    (s.blockLines.map String.toList).foldr readLine ([], blocks) = ([], s.opcodes :: blocks) := by
  have hlines : ∀ line ∈ (s.localsLines ++ s.codeLines).map String.toList,
      isHeader line = false := by
    rw [List.forall_mem_map, List.forall_mem_append, codeLines_eq, List.forall_mem_map]
    exact ⟨fun _ => isHeader_of_mem_localsLines, fun entry _ => isHeader_codeLine entry.2 entry.1⟩
  rw [blockLines, List.map_cons, List.foldr_cons, foldr_readLine hlines, readLine,
    isHeader_header, filterMap_opcodeOn?_block, List.append_nil]
  rfl

theorem foldr_readLine_blocks (bodies : List Sequence) :
    ((bodies.flatMap blockLines).map String.toList).foldr readLine ([], []) =
      ([], bodies.map opcodes) := by
  induction bodies with
  | nil => rfl
  | cons body rest ih =>
    rw [List.flatMap_cons, List.map_append, List.foldr_append, ih, foldr_readLine_blockLines,
      List.map_cons]

/-! ## The listing as a whole -/

/-- A listing is the block of its sequence, followed by the listings of the children. -/
theorem listing_eq_append (s : Sequence) :
    s.listing = String.join (s.blockLines.map fun line => line ++ "\n") ++
      String.join (s.nested.map listing) := by
  rw [listing, unfold_eq_cons, List.flatMap_cons, List.map_append, String.join_append,
    List.flatMap_assoc, List.map_flatMap, ← String.toList_inj]
  simp only [String.toList_append, String.toList_join, List.flatMap_assoc, List.flatMap_map,
    listing]

theorem oneLine_of_mem_unfold {s : Sequence} (h : s.SingleLine) :
    ∀ line ∈ s.unfold.flatMap blockLines, OneLine line := by
  intro line hline
  obtain ⟨body, hbody, hmem⟩ := List.mem_flatMap.1 hline
  exact oneLine_of_mem_blockLines (h body hbody) hmem

theorem lines_listing {s : Sequence} (h : s.SingleLine) :
    lines s.listing = (s.unfold.flatMap blockLines).map String.toList ++ [[]] :=
  lines_join (oneLine_of_mem_unfold h)

/-- The opcodes can be read off the text. -/
theorem skeleton_listing {s : Sequence} (h : s.SingleLine) :
    skeleton s.listing = s.unfold.map opcodes := by
  -- After the last line break there is an empty line, which says nothing.
  have hlast : readLine [] ([], []) = ([], []) := by decide
  rw [skeleton, lines_listing h, List.foldr_append, List.foldr_cons, List.foldr_nil, hlast,
    foldr_readLine_blocks]

theorem length_localsLines (s : Sequence) :
    s.localsLines.length = if s.locals = [] then 0 else 1 := by
  rw [localsLines]
  cases s.locals <;> rfl

theorem length_blockLines (s : Sequence) :
    s.blockLines.length = 1 + (if s.locals = [] then 0 else 1) + s.code.length := by
  rw [blockLines, List.length_cons, List.length_append, length_localsLines, codeLines,
    List.length_map, List.length_zipIdx]
  omega

/-- The lines of a listing are those of one block for each sequence, an outer one before those
inside it.  A block has its header, one line for the locals if there are any, and the instructions
numbered from zero.  Sequences with the same listing have the same opcodes. -/
theorem listing_determines_opcodes (s : Sequence) (h : s.SingleLine) :
    lines s.listing =
      (s.unfold.flatMap fun body =>
        body.header :: (body.localsLines ++ body.codeLines)).map String.toList ++ [[]] ∧
    s.unfold = s :: s.nested.flatMap unfold ∧
    s.listing = String.join (s.blockLines.map fun line => line ++ "\n") ++
      String.join (s.nested.map listing) ∧
    (∀ body ∈ s.unfold, body.localsLines.length = (if body.locals = [] then 0 else 1) ∧
      body.codeLines.map (fun line => positionOn line.toList) = List.range body.code.length) ∧
    s.listing.toList.count '\n' =
      (s.unfold.map fun body =>
        1 + (if body.locals = [] then 0 else 1) + body.code.length).sum ∧
    ∀ t : Sequence, t.SingleLine → t.listing = s.listing →
      t.unfold.map opcodes = s.unfold.map opcodes := by
  refine ⟨lines_listing h, s.unfold_eq_cons, s.listing_eq_append,
    fun body _ => ⟨body.length_localsLines, body.positions_codeLines⟩, ?_, ?_⟩
  · rw [listing, count_newline_join (oneLine_of_mem_unfold h), List.length_flatMap]
    simp only [length_blockLines]
  · intro t ht hlisting
    rw [← skeleton_listing ht, hlisting, skeleton_listing h]

/-- The demonstration under another identity, as if it had parameters. -/
def otherDemo : Sequence :=
  { Demo.program with id := ⟨9⟩, parameters := { lead := some 2 } }

theorem listing_determines_opcodes_demo :
    Demo.program.SingleLine ∧ otherDemo.SingleLine ∧
    otherDemo.listing = Demo.program.listing ∧
    Demo.program.listing.toList.count '\n' = 45 ∧
    otherDemo.unfold.map opcodes = Demo.program.unfold.map opcodes := by
  have hdemo : Demo.program.SingleLine := by
    unfold SingleLine
    decide +kernel
  have hother : otherDemo.SingleLine := by
    unfold SingleLine
    decide +kernel
  have hlisting : otherDemo.listing = Demo.program.listing := rfl
  obtain ⟨-, -, -, -, hcount, hsame⟩ := listing_determines_opcodes Demo.program hdemo
  refine ⟨hdemo, hother, hlisting, ?_, hsame otherDemo hother hlisting⟩
  rw [hcount]
  decide +kernel

end Sequence

end ClassIndex
