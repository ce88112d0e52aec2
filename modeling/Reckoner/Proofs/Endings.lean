/-
# Line endings and markers

A line ends in a line feed, with or without a carriage return in front of it; the last line of an
input may also end in a bare carriage return, or in nothing at all.  `WellEnded` says when lines
can be told from the endings that are put behind them, and `lines_joined` that they then come
back as they were.

The text of a line is empty, or an expression with a marker byte behind it.  What a run does
with an input depends on the expressions alone: `transcribe_layOut` compares two inputs that
differ in any of their endings and any of their markers.
-/
import Reckoner.Proofs.Accounting

namespace Reckoner

/-! ## Lines and their endings -/

/-- What stands behind a line. -/
inductive Ending where
  | lineFeed
  | returnLineFeed
  | carriageReturn
  | nothing
deriving DecidableEq, Repr

namespace Ending

def bytes : Ending → Bytes
  | lineFeed => [Bytes.lineFeed]
  | returnLineFeed => [Bytes.carriageReturn, Bytes.lineFeed]
  | carriageReturn => [Bytes.carriageReturn]
  | nothing => []

def hasLineFeed : Ending → Bool
  | lineFeed | returnLineFeed => true
  | carriageReturn | nothing => false

def hasReturn : Ending → Bool
  | returnLineFeed | carriageReturn => true
  | lineFeed | nothing => false

end Ending

/-- A line with what stands behind it. -/
structure EndedLine where
  line : Bytes
  ending : Ending
deriving DecidableEq, Repr

namespace EndedLine

def bytes (l : EndedLine) : Bytes := l.line ++ l.ending.bytes

/-- The ending of the line is where it seems to be: there is no line feed in the line, and no
carriage return at its end that could be taken for one of the ending. -/
structure Distinct (l : EndedLine) : Prop where
  lineFeed_notMem : Bytes.lineFeed ∉ l.line
  not_return : l.ending.hasReturn = false → l.line.getLast? ≠ some Bytes.carriageReturn

end EndedLine

/-- The lines with their endings, one behind the other. -/
def joined (ls : List EndedLine) : Bytes := ls.flatMap EndedLine.bytes

/-- The lines are those of an input: each can be told from its ending, only the last one may do
without a line feed, and then there has to be something of it. -/
structure WellEnded (ls : List EndedLine) : Prop where
  distinct : ∀ l ∈ ls, l.Distinct
  hasLineFeed : ∀ l ∈ ls.dropLast, l.ending.hasLineFeed = true
  bytes_ne_nil : ∀ l ∈ ls.getLast?, l.bytes ≠ []

/-- With a line feed in its ending a line is never empty altogether. -/
lemma EndedLine.bytes_ne_nil {l : EndedLine} (h : l.ending.hasLineFeed = true) : l.bytes ≠ [] := by
  intro hnil
  have hending : l.ending.bytes = [] := (List.append_eq_nil_iff.mp hnil).2
  cases hcase : l.ending with
  | lineFeed | returnLineFeed => rw [hcase] at hending; cases hending
  | carriageReturn | nothing => rw [hcase] at h; cases h

lemma WellEnded.of_hasLineFeed {ls : List EndedLine} (h : ∀ l ∈ ls, l.Distinct)
    (hfeed : ∀ l ∈ ls, l.ending.hasLineFeed = true) : WellEnded ls where
  distinct := h
  hasLineFeed := fun l hl => hfeed l (List.dropLast_subset _ hl)
  bytes_ne_nil := fun l hl => EndedLine.bytes_ne_nil (hfeed l (List.mem_of_getLast? hl))

/-- Behind the first line stand the lines of what is left of the input. -/
lemma WellEnded.tail {l : EndedLine} {ls : List EndedLine} (h : WellEnded (l :: ls)) :
    WellEnded ls := by
  cases ls with
  | nil => exact ⟨by simp, by simp, by simp⟩
  | cons l' ls =>
    exact
      { distinct := fun x hx => h.distinct x (List.mem_cons_of_mem l hx)
        hasLineFeed := fun x hx => h.hasLineFeed x (List.mem_cons_of_mem l hx)
        bytes_ne_nil := fun x hx =>
          h.bytes_ne_nil x (by rw [List.getLast?_cons_cons]; exact hx) }

lemma dropReturn_append_return (line : Bytes) :
    dropReturn (line ++ [Bytes.carriageReturn]) = line := by
  simp [dropReturn]

lemma lineFeed_notMem_append_return {line : Bytes} (h : Bytes.lineFeed ∉ line) :
    Bytes.lineFeed ∉ line ++ [Bytes.carriageReturn] := by
  rw [List.mem_append, List.mem_singleton]
  exact not_or.mpr ⟨h, by decide⟩

lemma dropReturn_of_ne {line : Bytes} (h : line.getLast? ≠ some Bytes.carriageReturn) :
    dropReturn line = line :=
  if_neg h

namespace EndedLine

variable {l : EndedLine}

/-- A line that ends in a line feed is the first line, whatever follows. -/
lemma lines_bytes_append (h : l.Distinct) (hfeed : l.ending.hasLineFeed = true) (rest : Bytes) :
    lines (l.bytes ++ rest) = l.line :: lines rest := by
  obtain ⟨line, ending⟩ := l
  obtain ⟨hmem, hreturn⟩ := h
  cases ending with
  | lineFeed =>
    have hjoin : bytes ⟨line, .lineFeed⟩ ++ rest = line ++ Bytes.lineFeed :: rest := by
      simp [bytes, Ending.bytes]
    rw [hjoin, lines_append_lineFeed hmem, dropReturn_of_ne (hreturn rfl)]
  | returnLineFeed =>
    have hjoin : bytes ⟨line, .returnLineFeed⟩ ++ rest =
        (line ++ [Bytes.carriageReturn]) ++ Bytes.lineFeed :: rest := by
      simp [bytes, Ending.bytes]
    rw [hjoin, lines_append_lineFeed (lineFeed_notMem_append_return hmem),
      dropReturn_append_return]
  | carriageReturn => cases hfeed
  | nothing => cases hfeed

/-- A line with nothing behind its ending is the only one. -/
lemma lines_bytes (h : l.Distinct) (hne : l.bytes ≠ []) : lines l.bytes = [l.line] := by
  cases hfeed : l.ending.hasLineFeed with
  | true =>
    have honly := lines_bytes_append h hfeed []
    rwa [List.append_nil, lines_nil] at honly
  | false =>
    obtain ⟨line, ending⟩ := l
    obtain ⟨hmem, hreturn⟩ := h
    cases ending with
    | lineFeed => cases hfeed
    | returnLineFeed => cases hfeed
    | carriageReturn =>
      rw [bytes, Ending.bytes,
        lines_unterminated (by simp) (lineFeed_notMem_append_return hmem),
        dropReturn_append_return]
    | nothing =>
      rw [bytes, Ending.bytes, List.append_nil] at hne ⊢
      rw [lines_unterminated hne hmem, dropReturn_of_ne (hreturn rfl)]

end EndedLine

/-- **Lines that are put together with their endings are cut apart into the same lines.** -/
lemma lines_joined {ls : List EndedLine} (h : WellEnded ls) :
    lines (joined ls) = ls.map EndedLine.line := by
  induction ls with
  | nil => exact lines_nil
  | cons l ls ih =>
    have hl : l.Distinct := h.distinct l (by simp)
    cases ls with
    | nil =>
      -- the last line may do without a line feed
      rw [joined, List.flatMap_singleton, EndedLine.lines_bytes hl (h.bytes_ne_nil l (by simp))]
      rfl
    | cons l' ls =>
      have hfeed : l.ending.hasLineFeed = true := h.hasLineFeed l (by simp)
      rw [joined, List.flatMap_cons, EndedLine.lines_bytes_append hl hfeed, List.map_cons]
      exact congrArg (l.line :: ·) (ih h.tail)

/-! ## Expressions and their markers -/

/-- The text of a line. -/
inductive LineText where
  | empty
  /-- An expression with a marker byte behind it. -/
  | marked (expression : Bytes) (marker : UInt8)
deriving DecidableEq, Repr

namespace LineText

def bytes : LineText → Bytes
  | empty => []
  | marked expression marker => expression ++ [marker]

/-- The text without its marker. -/
def expression? : LineText → Option Bytes
  | empty => none
  | marked expression _ => some expression

/-- The expression stays in one line, and the marker is no part of an ending. -/
def Proper : LineText → Prop
  | empty => True
  | marked expression marker =>
    Bytes.lineFeed ∉ expression ∧ marker ≠ Bytes.lineFeed ∧ marker ≠ Bytes.carriageReturn

instance : (t : LineText) → Decidable t.Proper
  | empty => inferInstanceAs (Decidable True)
  | marked _ _ => inferInstanceAs (Decidable (_ ∧ _))

end LineText

/-- A line as it is laid out in an input. -/
structure LaidLine where
  text : LineText
  ending : Ending
deriving DecidableEq, Repr

def LaidLine.ended (l : LaidLine) : EndedLine := ⟨l.text.bytes, l.ending⟩

/-- The input in which the lines are laid out. -/
def layOut (ls : List LaidLine) : Bytes := joined (ls.map LaidLine.ended)

/-- What the lines say: their expressions, in order, and which of them are empty. -/
def expressions (ls : List LaidLine) : List (Option Bytes) := ls.map fun l => l.text.expression?

/-- The lines can be laid out: their texts are proper, all endings but the last have a line feed,
and with no ending at all the last text is not empty. -/
structure ProperLayout (ls : List LaidLine) : Prop where
  proper : ∀ l ∈ ls, l.text.Proper
  hasLineFeed : ∀ l ∈ ls.dropLast, l.ending.hasLineFeed = true
  not_empty : ∀ l ∈ ls.getLast?, l.ending = .nothing → l.text ≠ .empty

/-- The verdict on a line, by what stands in front of its marker. -/
def Verdict.ofExpression : Option Bytes → Verdict
  | none => empty
  | some expression =>
    match evaluate expression with
    | .ok value => recorded ⟨expression.dropLast, value⟩
    | .error f => faulty f

lemma Verdict.ofLine_bytes (t : LineText) : ofLine t.bytes = ofExpression t.expression? := by
  rw [ofLine_eq]
  cases t with
  | empty => rfl
  | marked expression marker =>
    rw [if_neg (by simp [LineText.bytes]), LineText.bytes, List.dropLast_concat]
    rfl

lemma LaidLine.distinct_ended {l : LaidLine} (h : l.text.Proper) : l.ended.Distinct := by
  obtain ⟨text, ending⟩ := l
  cases text with
  | empty => exact ⟨by simp [ended, LineText.bytes], by simp [ended, LineText.bytes]⟩
  | marked expression marker =>
    obtain ⟨hmem, hfeed, hreturn⟩ := h
    refine ⟨?_, fun _ => ?_⟩
    · simp only [ended, LineText.bytes, List.mem_append, List.mem_singleton]
      exact not_or.mpr ⟨hmem, fun heq => hfeed heq.symm⟩
    · simpa [ended, LineText.bytes] using hreturn

lemma ProperLayout.wellEnded {ls : List LaidLine} (h : ProperLayout ls) :
    WellEnded (ls.map LaidLine.ended) where
  distinct := by
    intro x hx
    obtain ⟨l, hl, rfl⟩ := List.mem_map.mp hx
    exact LaidLine.distinct_ended (h.proper l hl)
  hasLineFeed := by
    intro x hx
    rw [← List.map_dropLast] at hx
    obtain ⟨l, hl, rfl⟩ := List.mem_map.mp hx
    exact h.hasLineFeed l hl
  bytes_ne_nil := by
    intro x hx
    rw [List.getLast?_map] at hx
    obtain ⟨⟨text, ending⟩, hl, rfl⟩ := Option.map_eq_some_iff.mp hx
    intro hnil
    obtain ⟨htext, hending⟩ := List.append_eq_nil_iff.mp hnil
    have hnothing : ending = .nothing := by
      cases ending with
      | nothing => rfl
      | lineFeed | returnLineFeed | carriageReturn => cases hending
    refine h.not_empty _ hl hnothing ?_
    cases text with
    | empty => rfl
    | marked expression marker => simp [LaidLine.ended, LineText.bytes] at htext

/-- The verdicts on the lines of an input that is laid out. -/
lemma verdicts_layOut {ls : List LaidLine} (h : ProperLayout ls) :
    verdicts (layOut ls) = (expressions ls).map Verdict.ofExpression := by
  rw [verdicts, layOut, lines_joined h.wellEnded, expressions, List.map_map, List.map_map,
    List.map_map]
  exact List.map_congr_left fun l _ => Verdict.ofLine_bytes l.text

/-- **Line endings and markers carry no information.**  Two inputs with the same expressions, and
with empty lines in the same places, are not told apart: whatever the sink is, the run leaves
the same in it, tells the same and has the same outcome. -/
theorem transcribe_layOut {ls ls' : List LaidLine} (h : ProperLayout ls) (h' : ProperLayout ls')
    (hsame : expressions ls = expressions ls') {σ : Type} [Sink σ] (s : σ) :
    transcribe (layOut ls) s = transcribe (layOut ls') s := by
  have hverdicts : verdicts (layOut ls) = verdicts (layOut ls') := by
    rw [verdicts_layOut h, verdicts_layOut h', hsame]
  rw [transcribe, transcribe, Transcript.ofRest_eq_ofVerdicts, Transcript.ofRest_eq_ofVerdicts,
    hverdicts]

/-- `1+2`, an empty line and `3*4` with a carriage return of its own, laid out in two ways; the
second has digits for markers, and a bare carriage return at its end. -/
theorem transcribe_layOut_twice :
    let sum : Bytes := [0x31, 0x2B, 0x32]
    let product : Bytes := [0x33, 0x2A, 0x34, Bytes.carriageReturn]
    let ls : List LaidLine :=
      [⟨.marked sum 0x78, .lineFeed⟩, ⟨.empty, .returnLineFeed⟩, ⟨.marked product 0x20, .nothing⟩]
    let ls' : List LaidLine :=
      [⟨.marked sum 0x35, .returnLineFeed⟩, ⟨.empty, .lineFeed⟩,
        ⟨.marked product 0x35, .carriageReturn⟩]
    layOut ls ≠ layOut ls' ∧ ProperLayout ls ∧ ProperLayout ls' ∧
      expressions ls = expressions ls' ∧
      transcribe (layOut ls) Tank.unlimited = transcribe (layOut ls') Tank.unlimited := by
  intro sum product ls ls'
  have h : ProperLayout ls := ⟨by decide, by decide, by decide⟩
  have h' : ProperLayout ls' := ⟨by decide, by decide, by decide⟩
  exact ⟨by decide, h, h', rfl, transcribe_layOut h h' rfl Tank.unlimited⟩

end Reckoner
