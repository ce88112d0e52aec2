/-
# Inputs put together at the end of a line

An input that ends where a line ends can be followed by any other: no line of the one reaches
into the other, `lines_append`.  So the run over both is the run over the first, followed by the
run over the second with its lines numbered further on: `transcribe_append`.  The line feed is
needed, since it is a blank inside of an expression and only the cut into lines keeps an
expression from reaching over it.
-/
import Reckoner.Proofs.Cutoff

namespace Reckoner

/-- No line goes on behind these bytes. -/
def EndsLine (input : Bytes) : Prop := input = [] ∨ input.getLast? = some Bytes.lineFeed

/-- What would be told of the same line if `n` more lines stood in front of it. -/
def Event.later (n : Nat) : Event → Event
  | emptyLine number => emptyLine (number + n)
  | faultyLine number f => faultyLine (number + n) f
  | e => e

/-! ## The lines of both inputs -/

lemma not_endsLine {line : Bytes} (hne : line ≠ []) (h : Bytes.lineFeed ∉ line) :
    ¬EndsLine line := by
  rintro (hnil | hlast)
  · exact hne hnil
  · exact h (List.mem_of_getLast? hlast)

/-- What stands behind a line feed ends where the whole does. -/
lemma EndsLine.of_append {line rest : Bytes} (h : EndsLine (line ++ Bytes.lineFeed :: rest)) :
    EndsLine rest := by
  rcases h with hnil | hlast
  · simp at hnil
  · cases rest with
    | nil => exact .inl rfl
    | cons b rest =>
      rw [List.getLast?_append_cons, List.getLast?_cons_cons] at hlast
      exact .inr hlast

lemma lines_append {a : Bytes} (ha : EndsLine a) (b : Bytes) :
    lines (a ++ b) = lines a ++ lines b := by
  induction a using line_induction with
  | nil => simp
  | unterminated line hne h => exact absurd ha (not_endsLine hne h)
  | terminated line rest h ih =>
    rw [List.append_assoc, List.cons_append, lines_append_lineFeed h, lines_append_lineFeed h,
      ih ha.of_append, List.cons_append]

/-! ## What is told of the lines of the second input -/

lemma skipOf?_later (number n : Nat) (line : Bytes) :
    skipOf? (number + n) line = (skipOf? number line).map (Event.later n) := by
  unfold skipOf?
  split
  · rfl
  · cases evaluate line.dropLast <;> rfl

lemma skipsFrom_later (number n : Nat) (ls : List Bytes) :
    skipsFrom (number + n) ls = (skipsFrom number ls).map (Event.later n) := by
  induction ls generalizing number with
  | nil => rfl
  | cons line ls ih =>
    have hih := ih (number + 1)
    rw [Nat.add_right_comm] at hih
    rw [skipsFrom_cons, skipsFrom_cons, List.map_append, skipOf?_later, hih, Option.toList_map]

lemma skipsFrom_append (number : Nat) (ls ls' : List Bytes) :
    skipsFrom number (ls ++ ls') =
      skipsFrom number ls ++ (skipsFrom number ls').map (Event.later ls.length) := by
  rw [← skipsFrom_later]
  unfold skipsFrom
  rw [List.zipIdx_append, List.filterMap_append]

/-! ## The run over both inputs -/

/-- **The run over two inputs put together is one run after the other,** if the first ends where
a line ends.  What becomes of a line does not depend on the other input, the records stand one
behind the other, the counts are added, and the lines of the second input are numbered behind
those of the first. -/
theorem transcribe_append {a : Bytes} (ha : EndsLine a) (b : Bytes) :
    let first := transcribe a Tank.unlimited
    let second := transcribe b Tank.unlimited
    let joint := transcribe (a ++ b) Tank.unlimited
    verdicts (a ++ b) = verdicts a ++ verdicts b ∧
    joint.sink.held = first.sink.held ++ second.sink.held ∧
    ∃ r s, first.outcome = .ok r ∧ second.outcome = .ok s ∧ joint.outcome = .ok (r + s) ∧
      joint.events = first.events ++ second.events.map (Event.later r.scanned) := by
  have hlines := lines_append ha b
  simp only [transcribe_unlimited_eq, verdicts, hlines, List.map_append, recordsOf_append,
    skipsFrom_append, true_and]
  refine ⟨_, _, rfl, rfl, congrArg Except.ok ?_, rfl⟩
  ext <;> simp

/-- The halves of `1+2`, cut by a line ending, stay without a value, and the expression behind
them is found as if it stood alone. -/
theorem transcribe_append_halves :
    let a : Bytes := [0x31, 0x2B, Bytes.carriageReturn, Bytes.lineFeed]
    let b : Bytes := [0x32, 0x78, Bytes.lineFeed, 0x33, 0x2A, 0x34, 0x78]
    EndsLine a ∧ verdicts (a ++ b) = verdicts a ++ verdicts b ∧
      (transcribe (a ++ b) Tank.unlimited).sink.held =
        [0x33, 0x2A, Bytes.equalsSign, 0x31, 0x32, Bytes.lineFeed] := by
  intro a b
  have ha : EndsLine a := .inr rfl
  obtain ⟨hverdicts, hheld, -⟩ := transcribe_append ha b
  have hfirst : (transcribe a Tank.unlimited).sink.held = [] := by decide +kernel
  have hsecond : (transcribe b Tank.unlimited).sink.held =
      [0x33, 0x2A, Bytes.equalsSign, 0x31, 0x32, Bytes.lineFeed] := by
    decide +kernel
  refine ⟨ha, hverdicts, ?_⟩
  rw [hheld, hfirst, hsecond, List.nil_append]

/-- Inside of one expression the line feed is a blank like any other. -/
example : evaluate [0x31, 0x2B, Bytes.lineFeed, 0x32] = .ok 3 := rfl

end Reckoner
