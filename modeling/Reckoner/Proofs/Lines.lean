/-
# The lines of an input as its pieces

`lines` takes one line after another from the front of an input.  Here it is seen as cutting
the whole input at its line feeds at once: `lines_eq_pieces`.  The carriage return of a line is
dropped after the cut, so none is dropped that does not stand at the end of a line.
-/
import Mathlib.Tactic.Common
import Reckoner.Line
import Reckoner.Pieces

namespace Reckoner

lemma bne_lineFeed_of_notMem {line : Bytes} (h : Bytes.lineFeed ∉ line) :
    ∀ b ∈ line, (b != Bytes.lineFeed) = true := by
  intro b hb
  rw [bne_iff_ne]
  rintro rfl
  exact h hb

@[simp] lemma lines_nil : lines [] = [] := lines_of_none rfl

/-- Bytes up to a line feed are the first line, and what is behind it gives the others. -/
lemma lines_append_lineFeed {line : Bytes} (h : Bytes.lineFeed ∉ line) (rest : Bytes) :
    lines (line ++ Bytes.lineFeed :: rest) = dropReturn line :: lines rest := by
  refine lines_of_some ?_
  have htake : (line ++ Bytes.lineFeed :: rest).takeWhile (· != Bytes.lineFeed) = line := by
    rw [List.takeWhile_append_of_pos (bne_lineFeed_of_notMem h)]
    simp
  rw [nextLine?, if_neg (by simp)]
  simp only [htake]
  simp [List.drop_append]

lemma lines_unterminated {line : Bytes} (hne : line ≠ []) (h : Bytes.lineFeed ∉ line) :
    lines line = [dropReturn line] := by
  have htake : line.takeWhile (· != Bytes.lineFeed) = line := by
    rw [← List.append_nil line, List.takeWhile_append_of_pos
      (by simpa using bne_lineFeed_of_notMem h)]
    simp
  have hnext : nextLine? line = some (dropReturn line, []) := by
    rw [nextLine?, if_neg hne]
    simp [htake]
  rw [lines_of_some hnext, lines_nil]

/-- Induction along the line feeds of an input. -/
lemma line_induction {P : Bytes → Prop} (nil : P [])
    (unterminated : ∀ line, line ≠ [] → Bytes.lineFeed ∉ line → P line)
    (terminated : ∀ line rest, Bytes.lineFeed ∉ line → P rest →
      P (line ++ Bytes.lineFeed :: rest)) (input : Bytes) : P input := by
  induction h : input.length using Nat.strongRecOn generalizing input with
  | _ n ih =>
    by_cases hmem : Bytes.lineFeed ∈ input
    · obtain ⟨line, rest, rfl, hline⟩ := List.eq_append_cons_of_mem hmem
      refine terminated line rest hline (ih rest.length ?_ rest rfl)
      rw [← h, List.length_append, List.length_cons]
      omega
    · by_cases hnil : input = []
      · rw [hnil]
        exact nil
      · exact unterminated input hnil hmem

/-- **The lines of an input are its pieces between line feeds,** each without one carriage
return at its end. -/
lemma lines_eq_pieces (input : Bytes) :
    lines input = (pieces (· == Bytes.lineFeed) input).map dropReturn := by
  have hpiece : ∀ line : Bytes, Bytes.lineFeed ∉ line →
      ∀ b ∈ line, (b == Bytes.lineFeed) = false := by
    intro line h b hb
    rw [beq_eq_false_iff_ne]
    rintro rfl
    exact h hb
  induction input using line_induction with
  | nil => simp
  | unterminated line hne h =>
    rw [lines_unterminated hne h, pieces_unterminated (hpiece line h) hne, List.map_singleton]
  | terminated line rest h ih =>
    rw [lines_append_lineFeed h, pieces_append_separator (hpiece line h) (by simp), List.map_cons,
      ih]

end Reckoner
