/-
# Every line is accounted for once

A run is held here against what its lines alone say.  `recordOf?` is the record of a line and
`skipOf?` is what is told of a line without one; neither knows about the run, its counters or its
sink.  A run over an input into a sink that takes everything leaves the records of the lines in
order, tells of the other lines in order, counts both and flushes once: `transcribe_accounts`.
-/
import Reckoner.Proofs.Outcome
import Reckoner.Proofs.Run

namespace Reckoner

/-! ## The record of a line -/

/-- The record of a line.  It has one if what stands in front of its last byte has a value, and
the label is what stands in front of its last two bytes. -/
def recordOf? (line : Bytes) : Option Record :=
  if line = [] then none
  else match evaluate line.dropLast with
    | .ok value => some ⟨line.dropLast.dropLast, value⟩
    | .error _ => none

/-- What is told of a line without a record. -/
def skipOf? (number : Nat) (line : Bytes) : Option Event :=
  if line = [] then some (.emptyLine number)
  else match evaluate line.dropLast with
    | .ok _ => none
    | .error f => some (.faultyLine number f)

/-- The bytes of the records of some lines. -/
def recordsOf (ls : List Bytes) : Bytes := (ls.filterMap recordOf?).flatMap Record.written

/-- What is told of lines that are numbered from `number` on. -/
def skipsFrom (number : Nat) (ls : List Bytes) : List Event :=
  (ls.zipIdx number).filterMap fun p => skipOf? p.2 p.1

lemma recordOf?_eq_some_iff {line : Bytes} {r : Record} :
    recordOf? line = some r ↔
      line ≠ [] ∧ r.label = line.dropLast.dropLast ∧ evaluate line.dropLast = .ok r.value := by
  unfold recordOf?
  obtain ⟨label, value⟩ := r
  by_cases hnil : line = []
  · simp [hnil]
  · rw [if_neg hnil]
    cases heval : evaluate line.dropLast with
    | ok v => simp [hnil, eq_comm]
    | error f => simp

lemma skipOf?_eq_some_iff {number : Nat} {line : Bytes} {e : Event} :
    skipOf? number line = some e ↔
      line = [] ∧ e = .emptyLine number ∨
        line ≠ [] ∧ ∃ f, evaluate line.dropLast = .error f ∧ e = .faultyLine number f := by
  unfold skipOf?
  by_cases hnil : line = []
  · simp [hnil, eq_comm]
  · rw [if_neg hnil]
    cases heval : evaluate line.dropLast with
    | ok v => simp [hnil]
    | error f => simp [hnil, eq_comm]

lemma isSome_recordOf? (number : Nat) (line : Bytes) :
    (recordOf? line).isSome = (skipOf? number line).isNone := by
  unfold recordOf? skipOf?
  by_cases hnil : line = []
  · rw [if_pos hnil, if_pos hnil]
    rfl
  · rw [if_neg hnil, if_neg hnil]
    cases evaluate line.dropLast <;> rfl

/-- There are three bytes in anything that has a value: two operands and an operator. -/
lemma length_of_evaluate_ok {bytes : Bytes} {value : Int64} (h : evaluate bytes = .ok value) :
    3 ≤ bytes.length := by
  by_cases hin : ∃ o : Occurrence, o.In bytes
  · obtain ⟨o, ho⟩ := hin
    have hleft := List.length_pos_iff.mpr ho.valid.left_ne_nil
    have hright := List.length_pos_iff.mpr ho.valid.right_ne_nil
    rw [← ho.whole_eq, Occurrence.length_whole]
    omega
  · rw [Occurrence.evaluate_of_not_in hin] at h
    cases h

/-- A line with a record has at least four bytes, so that it has a last but one to lose. -/
lemma length_of_recordOf? {line : Bytes} {r : Record} (h : recordOf? line = some r) :
    4 ≤ line.length ∧ trimLast? line.dropLast = some r.label := by
  obtain ⟨-, hlabel, heval⟩ := recordOf?_eq_some_iff.mp h
  have hlen := length_of_evaluate_ok heval
  have hne : line.dropLast ≠ [] := by
    rw [← List.length_pos_iff]
    omega
  rw [trimLast?, if_neg hne, hlabel]
  rw [List.length_dropLast] at hlen
  exact ⟨by omega, rfl⟩

/-! ## Verdicts and records -/

namespace Verdict

/-- The verdict on a line is what its record and its fault say. -/
lemma ofLine_eq (line : Bytes) :
    ofLine line =
      if line = [] then empty
      else match evaluate line.dropLast with
        | .ok value => recorded ⟨line.dropLast.dropLast, value⟩
        | .error f => faulty f := by
  have hlabel : ∀ bytes : Bytes, (trimLast? bytes).getD [] = bytes.dropLast := by
    intro bytes
    unfold trimLast?
    split
    · next hnil => rw [hnil]; rfl
    · rfl
  unfold ofLine trimLast?
  by_cases hnil : line = []
  · rw [if_pos hnil, if_pos hnil]
  · rw [if_neg hnil, if_neg hnil]
    simp only
    cases evaluate line.dropLast with
    | ok v => exact congrArg (fun label => recorded ⟨label, v⟩) (hlabel line.dropLast)
    | error f => rfl

lemma isRecorded_ofLine (line : Bytes) : (ofLine line).isRecorded = (recordOf? line).isSome := by
  rw [ofLine_eq, recordOf?]
  split
  · rfl
  · cases evaluate line.dropLast <;> rfl

lemma output_ofLine (line : Bytes) :
    (ofLine line).output = (recordOf? line).toList.flatMap Record.written := by
  rw [ofLine_eq, recordOf?]
  split
  · rfl
  · cases evaluate line.dropLast with
    | ok v => exact (List.append_nil _).symm
    | error f => rfl

lemma event?_ofLine (number : Nat) (line : Bytes) :
    (ofLine line).event? number = skipOf? number line := by
  rw [ofLine_eq, skipOf?]
  split
  · rfl
  · cases evaluate line.dropLast <;> rfl

end Verdict

lemma filterMap_cons_toList {α β : Type} (f : α → Option β) (a : α) (l : List α) :
    (a :: l).filterMap f = (f a).toList ++ l.filterMap f := by
  rw [List.filterMap_eq_flatMap_toList, List.filterMap_eq_flatMap_toList, List.flatMap_cons]

lemma skipsFrom_cons (number : Nat) (line : Bytes) (ls : List Bytes) :
    skipsFrom number (line :: ls) =
      (skipOf? number line).toList ++ skipsFrom (number + 1) ls := by
  rw [skipsFrom, List.zipIdx_cons, filterMap_cons_toList]
  rfl

lemma outputOf_map_ofLine (ls : List Bytes) : outputOf (ls.map Verdict.ofLine) = recordsOf ls := by
  induction ls with
  | nil => rfl
  | cons line ls ih =>
    rw [recordsOf, filterMap_cons_toList, List.flatMap_append, ← Verdict.output_ofLine]
    exact congrArg (_ ++ ·) ih

lemma eventsOf_map_ofLine (number : Nat) (ls : List Bytes) :
    eventsOf number (ls.map Verdict.ofLine) = skipsFrom number ls := by
  induction ls generalizing number with
  | nil => rfl
  | cons line ls ih =>
    rw [skipsFrom_cons, List.map_cons, eventsOf, Verdict.event?_ofLine, ih]

/-! ## Counting the lines -/

/-- Every line has a record or is told of. -/
lemma length_filterMap_recordOf? (number : Nat) (ls : List Bytes) :
    (ls.filterMap recordOf?).length + (skipsFrom number ls).length = ls.length := by
  induction ls generalizing number with
  | nil => rfl
  | cons line ls ih =>
    have hline : (recordOf? line).toList.length + (skipOf? number line).toList.length = 1 := by
      have h := isSome_recordOf? number line
      cases hr : recordOf? line <;> cases hs : skipOf? number line <;>
        first
        | rfl
        | simp [hr, hs] at h
    have hih := ih (number + 1)
    rw [skipsFrom_cons, filterMap_cons_toList, List.length_append, List.length_append,
      List.length_cons]
    omega

lemma ofVerdicts_map_ofLine (ls : List Bytes) :
    Report.ofVerdicts (ls.map Verdict.ofLine) =
      ⟨ls.length, (ls.filterMap recordOf?).length, (skipsFrom 1 ls).length⟩ := by
  have hsum := length_filterMap_recordOf? 1 ls
  have hwritten : (ls.map Verdict.ofLine).countP Verdict.isRecorded =
      (ls.filterMap recordOf?).length := by
    rw [List.countP_map, List.length_filterMap_eq_countP]
    exact List.countP_congr fun line _ => by simp [Verdict.isRecorded_ofLine]
  have hskipped := List.length_eq_countP_add_countP Verdict.isRecorded
    (l := ls.map Verdict.ofLine)
  rw [List.length_map, hwritten] at hskipped
  ext
  · exact List.length_map _
  · exact hwritten
  · have hnot : (fun v => !Verdict.isRecorded v) =
        fun v => decide ¬Verdict.isRecorded v = true := by
      funext v
      simp
    simp only [Report.ofVerdicts, hnot]
    omega

/-! ## The order of what is told -/

lemma line?_of_skipOf? {number : Nat} {line : Bytes} {e : Event}
    (h : skipOf? number line = some e) : e.line? = some number := by
  rcases skipOf?_eq_some_iff.mp h with ⟨-, rfl⟩ | ⟨-, f, -, rfl⟩ <;> rfl

lemma pairwise_skipsFrom (number : Nat) (ls : List Bytes) :
    ((skipsFrom number ls).filterMap Event.line?).Pairwise (· < ·) := by
  have hnumbers : (ls.zipIdx number).Pairwise fun p q => p.2 < q.2 := by
    rw [← List.pairwise_map, List.zipIdx_map_snd]
    exact List.pairwise_lt_range'
  rw [List.pairwise_filterMap]
  refine hnumbers.filterMap _ ?_
  intro p q hlt e he e' he' k hk k' hk'
  rw [line?_of_skipOf? he, Option.some.injEq] at hk
  rw [line?_of_skipOf? he', Option.some.injEq] at hk'
  rw [← hk, ← hk']
  exact hlt

/-- What is told belongs to a line without a record, and says why it has none. -/
lemma of_mem_skipsFrom {number : Nat} {ls : List Bytes} {e : Event} (h : e ∈ skipsFrom number ls) :
    ∃ line k, (line, k) ∈ ls.zipIdx number ∧ e.line? = some k ∧
      (line = [] ∧ e.message? = some "skipping empty line" ∧ e.error? = none ∨
        line ≠ [] ∧ ∃ f, evaluate line.dropLast = .error f ∧
          e.message? = some "skipping line" ∧ e.error? = some f.message) := by
  obtain ⟨⟨line, k⟩, hmem, hskip⟩ := List.mem_filterMap.mp h
  refine ⟨line, k, hmem, line?_of_skipOf? hskip, ?_⟩
  rcases skipOf?_eq_some_iff.mp hskip with ⟨hnil, rfl⟩ | ⟨hne, f, heval, rfl⟩
  · exact .inl ⟨hnil, rfl, rfl⟩
  · exact .inr ⟨hne, f, heval, rfl, rfl⟩

/-! ## The whole run -/

/-- A run that leaves nothing of its lines out and adds nothing to them.  The lines with a record
are written in order.  The others are told of in order, with their numbers and with the words for
what is wrong with them.  Both are counted, and the sink is flushed once.  A line that is written
is long enough to lose two bytes, so that its label is never one made up for want of bytes. -/
structure Accounts (ls : List Bytes) (t : Transcript Tank) : Prop where
  held_eq : t.sink.held = recordsOf ls
  events_eq : t.events = skipsFrom 1 ls
  one_of_two : ∀ number line, (recordOf? line).isSome = (skipOf? number line).isNone
  told : ∀ e ∈ t.events, ∃ line k, (line, k) ∈ ls.zipIdx 1 ∧ e.line? = some k ∧
    (line = [] ∧ e.message? = some "skipping empty line" ∧ e.error? = none ∨
      line ≠ [] ∧ ∃ f, evaluate line.dropLast = .error f ∧
        e.message? = some "skipping line" ∧ e.error? = some f.message)
  increasing : (t.events.filterMap Event.line?).Pairwise (· < ·)
  outcome_eq : t.outcome = .ok ⟨ls.length, (ls.filterMap recordOf?).length, t.events.length⟩
  length_add_length : (ls.filterMap recordOf?).length + t.events.length = ls.length
  flushes_eq : t.sink.flushes = 1
  label_of_recordOf? : ∀ line r, recordOf? line = some r →
    4 ≤ line.length ∧ trimLast? line.dropLast = some r.label

lemma transcribe_unlimited_eq (input : Bytes) :
    transcribe input Tank.unlimited =
      ⟨⟨none, none, none, recordsOf (lines input), 1⟩, skipsFrom 1 (lines input),
        .ok ⟨(lines input).length, ((lines input).filterMap recordOf?).length,
          (skipsFrom 1 (lines input)).length⟩⟩ := by
  rw [transcribe, Transcript.ofRest_eq_ofVerdicts, Transcript.ofVerdicts_of_fits rfl,
    Transcript.finish_tank, Report.none_add, verdicts, outputOf_map_ofLine, eventsOf_map_ofLine,
    ofVerdicts_map_ofLine]
  rfl

/-- **Every line of an input is accounted for once, in order.**  The lines are what stands
between the line feeds, each without one carriage return at its end. -/
theorem transcribe_accounts (input : Bytes) :
    Accounts ((pieces (· == Bytes.lineFeed) input).map dropReturn)
      (transcribe input Tank.unlimited) := by
  rw [← lines_eq_pieces, transcribe_unlimited_eq]
  exact
    { held_eq := rfl
      events_eq := rfl
      one_of_two := isSome_recordOf?
      told := fun _ => of_mem_skipsFrom
      increasing := pairwise_skipsFrom 1 _
      outcome_eq := rfl
      length_add_length := length_filterMap_recordOf? 1 _
      flushes_eq := rfl
      label_of_recordOf? := fun _ _ => length_of_recordOf? }

end Reckoner
