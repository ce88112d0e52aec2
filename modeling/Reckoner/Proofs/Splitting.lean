/-
# The one way to split an input into lines

Every input is some lines with their endings, put together: `exists_wellEnded`.  There is only one
such way to read an input, `WellEnded.unique`, and `lines` gives the lines of it.  So cutting an
input into lines loses nothing but the endings: a line feed is lost, and a carriage return only
where it stands in front of a line feed or at the very end, and only one of several there.
-/
import Reckoner.Proofs.Endings
import Reckoner.Proofs.Joining

namespace Reckoner

instance (input : Bytes) : Decidable (EndsLine input) := inferInstanceAs (Decidable (_ ∨ _))

/-! ## Reading a stretch of bytes as a line -/

/-- The stretch of bytes up to a line feed, or up to the end of the input, as a line with its
ending. -/
def EndedLine.ofStretch (stretch : Bytes) (hasLineFeed : Bool) : EndedLine where
  line := dropReturn stretch
  ending :=
    match decide (stretch.getLast? = some Bytes.carriageReturn), hasLineFeed with
    | true, true => .returnLineFeed
    | true, false => .carriageReturn
    | false, true => .lineFeed
    | false, false => .nothing

namespace EndedLine

variable {stretch : Bytes} {hasLineFeed : Bool}

lemma ofStretch_append_return (front : Bytes) (hasLineFeed : Bool) :
    ofStretch (front ++ [Bytes.carriageReturn]) hasLineFeed =
      ⟨front, if hasLineFeed then .returnLineFeed else .carriageReturn⟩ := by
  unfold ofStretch
  rw [dropReturn_append_return]
  cases hasLineFeed <;> simp

lemma ofStretch_of_ne (h : stretch.getLast? ≠ some Bytes.carriageReturn) (hasLineFeed : Bool) :
    ofStretch stretch hasLineFeed = ⟨stretch, if hasLineFeed then .lineFeed else .nothing⟩ := by
  unfold ofStretch
  rw [dropReturn_of_ne h]
  cases hasLineFeed <;> simp [h]

/-- A stretch ends in a carriage return, which belongs to the ending, or it is a line as it is. -/
lemma ofStretch_cases (stretch : Bytes) :
    (∃ front, stretch = front ++ [Bytes.carriageReturn]) ∨
      stretch.getLast? ≠ some Bytes.carriageReturn := by
  by_cases h : stretch.getLast? = some Bytes.carriageReturn
  · exact .inl ⟨stretch.dropLast, (List.dropLast_append_getLast? _ h).symm⟩
  · exact .inr h

@[simp] lemma hasLineFeed_ofStretch :
    (ofStretch stretch hasLineFeed).ending.hasLineFeed = hasLineFeed := by
  rcases ofStretch_cases stretch with ⟨front, rfl⟩ | h
  · rw [ofStretch_append_return]
    cases hasLineFeed <;> rfl
  · rw [ofStretch_of_ne h]
    cases hasLineFeed <;> rfl

/-- Nothing of the stretch is lost. -/
lemma bytes_ofStretch :
    (ofStretch stretch hasLineFeed).bytes =
      stretch ++ if hasLineFeed then [Bytes.lineFeed] else [] := by
  rcases ofStretch_cases stretch with ⟨front, rfl⟩ | h
  · rw [ofStretch_append_return]
    cases hasLineFeed <;> simp [bytes, Ending.bytes]
  · rw [ofStretch_of_ne h]
    cases hasLineFeed <;> simp [bytes, Ending.bytes]

lemma distinct_ofStretch (h : Bytes.lineFeed ∉ stretch) :
    (ofStretch stretch hasLineFeed).Distinct := by
  rcases ofStretch_cases stretch with ⟨front, rfl⟩ | hlast
  · rw [ofStretch_append_return]
    refine ⟨fun hmem => h (List.mem_append_left _ hmem), fun hreturn => ?_⟩
    cases hasLineFeed <;> cases hreturn
  · rw [ofStretch_of_ne hlast]
    exact ⟨h, fun _ => hlast⟩

end EndedLine

/-! ## Every input can be split -/

lemma WellEnded.cons {l : EndedLine} {ls : List EndedLine} (hl : l.Distinct)
    (hfeed : l.ending.hasLineFeed = true) (h : WellEnded ls) : WellEnded (l :: ls) := by
  cases ls with
  | nil => exact .of_hasLineFeed (by simpa using hl) (by simpa using hfeed)
  | cons l' ls =>
    exact
      { distinct := List.forall_mem_cons.mpr ⟨hl, h.distinct⟩
        hasLineFeed := List.forall_mem_cons.mpr ⟨hfeed, h.hasLineFeed⟩
        bytes_ne_nil := fun x hx =>
          h.bytes_ne_nil x (by rw [List.getLast?_cons_cons] at hx; exact hx) }

lemma exists_wellEnded (input : Bytes) : ∃ ls, WellEnded ls ∧ joined ls = input := by
  induction input using line_induction with
  | nil => exact ⟨[], ⟨by simp, by simp, by simp⟩, rfl⟩
  | unterminated line hne h =>
    refine ⟨[.ofStretch line false], ⟨?_, by simp, ?_⟩, ?_⟩
    · simpa using EndedLine.distinct_ofStretch h
    · simpa [EndedLine.bytes_ofStretch] using hne
    · simp [joined, EndedLine.bytes_ofStretch]
  | terminated line rest h ih =>
    obtain ⟨ls, hended, rfl⟩ := ih
    refine ⟨.ofStretch line true :: ls,
      hended.cons (EndedLine.distinct_ofStretch h) EndedLine.hasLineFeed_ofStretch, ?_⟩
    simp [joined, EndedLine.bytes_ofStretch]

/-! ## There is only one way to split -/

lemma Ending.bytes_injective {e e' : Ending} (h : e.bytes = e'.bytes) : e = e' := by
  cases e <;> cases e' <;> first | rfl | cases h

/-- An ending with a line feed can be told from what follows it. -/
lemma Ending.eq_of_append {e e' : Ending} {rest rest' : Bytes} (he : e.hasLineFeed = true)
    (he' : e'.hasLineFeed = true) (h : e.bytes ++ rest = e'.bytes ++ rest') :
    e = e' ∧ rest = rest' := by
  cases e <;> cases he <;> cases e' <;> cases he' <;> cases h <;> exact ⟨rfl, rfl⟩

/-- The lines are those that `lines` gives, and what stands between them leaves no choice for
their endings. -/
lemma WellEnded.unique {ls ls' : List EndedLine} (h : WellEnded ls) (h' : WellEnded ls')
    (heq : joined ls = joined ls') : ls = ls' := by
  have hlines : ls.map EndedLine.line = ls'.map EndedLine.line := by
    rw [← lines_joined h, ← lines_joined h', heq]
  induction ls generalizing ls' with
  | nil =>
    rw [List.map_nil, eq_comm, List.map_eq_nil_iff] at hlines
    exact hlines.symm
  | cons l ls ih =>
    cases ls' with
    | nil => cases hlines
    | cons l' ls' =>
      obtain ⟨line, ending⟩ := l
      obtain ⟨line', ending'⟩ := l'
      obtain ⟨hline, hrest⟩ := List.cons.inj hlines
      change line = line' at hline
      subst hline
      have hcut : ending.bytes ++ joined ls = ending'.bytes ++ joined ls' := by
        simpa [joined, EndedLine.bytes] using heq
      cases ls with
      | nil =>
        -- behind the last line there is nothing but its ending
        rw [List.map_nil, eq_comm, List.map_eq_nil_iff] at hrest
        subst hrest
        have hending : ending = ending' := Ending.bytes_injective (by simpa [joined] using hcut)
        rw [hending]
      | cons m ms =>
        cases ls' with
        | nil => cases hrest
        | cons m' ms' =>
          have hfeed : ending.hasLineFeed = true := h.hasLineFeed ⟨line, ending⟩ (by simp)
          have hfeed' : ending'.hasLineFeed = true := h'.hasLineFeed ⟨line, ending'⟩ (by simp)
          obtain ⟨hending, hjoined⟩ := Ending.eq_of_append hfeed hfeed' hcut
          rw [hending, ih h.tail h'.tail hjoined hrest]

/-! ## How many lines there are -/

lemma endsLine_append_lineFeed_iff {line rest : Bytes} :
    EndsLine (line ++ Bytes.lineFeed :: rest) ↔ EndsLine rest := by
  refine ⟨EndsLine.of_append, ?_⟩
  rintro (rfl | hlast)
  · exact .inr (by simp)
  · right
    cases rest with
    | nil => cases hlast
    | cons b rest => rwa [List.getLast?_append_cons, List.getLast?_cons_cons]

/-- Each line feed ends a line, and bytes behind the last one are a line more. -/
lemma length_lines (input : Bytes) :
    (lines input).length = input.count Bytes.lineFeed + if EndsLine input then 0 else 1 := by
  induction input using line_induction with
  | nil => rw [lines_nil, if_pos (.inl rfl)]; rfl
  | unterminated line hne h =>
    rw [lines_unterminated hne h, List.count_eq_zero.mpr h, if_neg (not_endsLine hne h)]
    rfl
  | terminated line rest h ih =>
    rw [lines_append_lineFeed h, List.length_cons, ih, List.count_append,
      List.count_eq_zero.mpr h, List.count_cons_self]
    simp only [endsLine_append_lineFeed_iff]
    omega

/-- **The lines of an input are the only way to split it without loss.**  There is one list of
lines with their endings, each to be told from its ending, that gives the input when it is put
together, and it has the lines of the input.  There is a line for each line feed, and one more if
something follows the last of them.  The other way round, lines that are put together with
endings that they can be told from are the lines of what comes of it. -/
theorem lines_split :
    (∀ input : Bytes,
      (∃ ls, WellEnded ls ∧ joined ls = input ∧ lines input = ls.map EndedLine.line ∧
        ∀ ls', WellEnded ls' → joined ls' = input → ls' = ls) ∧
      (lines input).length = input.count Bytes.lineFeed + if EndsLine input then 0 else 1) ∧
    ∀ ls, WellEnded ls → lines (joined ls) = ls.map EndedLine.line := by
  refine ⟨fun input => ⟨?_, length_lines input⟩, fun ls h => lines_joined h⟩
  obtain ⟨ls, h, rfl⟩ := exists_wellEnded input
  exact ⟨ls, h, rfl, lines_joined h, fun ls' h' heq => h'.unique h heq⟩

/-- Carriage returns in the middle of a line, in front of another one and at the very end, with
empty lines between them. -/
theorem lines_split_returns :
    let r := Bytes.carriageReturn
    let ls : List EndedLine :=
      [⟨[0x61, r, 0x62], .returnLineFeed⟩, ⟨[], .lineFeed⟩, ⟨[0x63, r, r], .returnLineFeed⟩,
        ⟨[], .returnLineFeed⟩, ⟨[r], .carriageReturn⟩]
    WellEnded ls ∧ lines (joined ls) = [[0x61, r, 0x62], [], [0x63, r, r], [], [r]] ∧
      ∀ ls', WellEnded ls' → joined ls' = joined ls → ls' = ls := by
  intro r ls
  have hmem : ∀ l ∈ ls, Bytes.lineFeed ∉ l.line := by decide
  have hreturn : ∀ l ∈ ls, l.ending.hasReturn = false → l.line.getLast? ≠ some r := by decide
  have hended : WellEnded ls :=
    ⟨fun l hl => ⟨hmem l hl, hreturn l hl⟩, by decide, by decide⟩
  obtain ⟨hsplit, hjoined⟩ := lines_split
  obtain ⟨⟨found, -, -, -, hunique⟩, -⟩ := hsplit (joined ls)
  have hfound : ls = found := hunique ls hended rfl
  refine ⟨hended, hjoined ls hended, ?_⟩
  rw [hfound] at hunique ⊢
  exact hunique

end Reckoner
