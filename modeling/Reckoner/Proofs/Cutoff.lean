/-
# A run into a sink of limited room

The sink takes bytes up to its limit, the last of them perhaps out of the middle of a portion,
and refuses every byte after that.  Such a run is compared with the run into a sink that takes
everything: `transcribe_limited`.  If the records fit, the two agree up to what the flush says.
If not, the sink is left with the beginning of the records that there is room for, wherever that
ends, and what is told stops at the line that holds the first byte there is no room for.
-/
import Reckoner.Proofs.Accounting

namespace Reckoner

/-- Of the records of some lines, that of the line at index `k` holds the byte at index `n`. -/
def HoldsByte (ls : List Bytes) (n k : Nat) : Prop :=
  ∃ line r, ls[k]? = some line ∧ recordOf? line = some r ∧
    (recordsOf (ls.take k)).length ≤ n ∧ n < (recordsOf (ls.take k)).length + r.written.length

/-! ## The line that holds a byte -/

lemma recordsOf_append (ls ls' : List Bytes) :
    recordsOf (ls ++ ls') = recordsOf ls ++ recordsOf ls' := by
  rw [recordsOf, List.filterMap_append, List.flatMap_append]
  rfl

lemma length_recordsOf_take {j k : Nat} (h : j ≤ k) (ls : List Bytes) :
    (recordsOf (ls.take j)).length ≤ (recordsOf (ls.take k)).length := by
  have hsplit : ls.take k = ls.take j ++ (ls.take k).drop j := by
    have htake := List.take_append_drop j (ls.take k)
    rw [List.take_take, Nat.min_eq_left h] at htake
    exact htake.symm
  rw [hsplit, recordsOf_append, List.length_append]
  exact Nat.le_add_right _ _

lemma HoldsByte.lt_length {ls : List Bytes} {n k : Nat} (h : HoldsByte ls n k) :
    n < (recordsOf (ls.take (k + 1))).length := by
  obtain ⟨line, r, hline, hr, -, hlt⟩ := h
  have hrecords : recordsOf [line] = r.written := by simp [recordsOf, hr]
  rw [List.take_add_one, hline, Option.toList_some, recordsOf_append, hrecords, List.length_append]
  exact hlt

lemma HoldsByte.unique {ls : List Bytes} {n j k : Nat} (hj : HoldsByte ls n j)
    (hk : HoldsByte ls n k) : j = k := by
  -- the records up to the earlier of two lines would end before the byte, and behind it
  have hle : ∀ {i i' : Nat}, HoldsByte ls n i → HoldsByte ls n i' → i' ≤ i := by
    intro i i' hi hi'
    by_contra hlt
    have hmono := length_recordsOf_take (show i + 1 ≤ i' by omega) ls
    have hend := hi.lt_length
    obtain ⟨-, -, -, -, hbegin, -⟩ := hi'
    omega
  exact Nat.le_antisymm (hle hk hj) (hle hj hk)

/-! ## The two runs -/

lemma recordOf?_of_ofLine {line : Bytes} {r : Record} (h : Verdict.ofLine line = .recorded r) :
    recordOf? line = some r := by
  rw [Verdict.ofLine_eq] at h
  unfold recordOf?
  split at h
  · cases h
  · next hne =>
    rw [if_neg hne]
    cases heval : evaluate line.dropLast with
    | ok v =>
      rw [heval] at h
      cases h
      rfl
    | error f =>
      rw [heval] at h
      cases h

lemma Tank.fitting_limited (limit : Nat) (whenFull whenFlushed : Option IoError) (bytes : Bytes) :
    (Tank.limited limit whenFull whenFlushed).fitting bytes = bytes ↔ bytes.length ≤ limit :=
  fitting_eq_self_iff rfl bytes

variable {input : Bytes} {limit : Nat}

/-- If there is room for all records, the limit makes no difference. -/
lemma transcribe_of_le (h : (recordsOf (lines input)).length ≤ limit)
    (whenFull whenFlushed : Option IoError) :
    transcribe input (Tank.limited limit whenFull whenFlushed) =
      ⟨⟨some limit, whenFull, whenFlushed, recordsOf (lines input), 1⟩,
        skipsFrom 1 (lines input),
        match whenFlushed with
        | none => (transcribe input Tank.unlimited).outcome
        | some e => .error e⟩ := by
  have hfits := (Tank.fitting_limited limit whenFull whenFlushed _).mpr h
  rw [← outputOf_map_ofLine] at hfits
  rw [transcribe_unlimited_eq, transcribe, Transcript.ofRest_eq_ofVerdicts, verdicts,
    Transcript.ofVerdicts_of_fits hfits, Transcript.finish_tank, Report.none_add, Tank.fill, hfits,
    outputOf_map_ofLine, eventsOf_map_ofLine, ofVerdicts_map_ofLine]
  rfl

/-- If there is not, the run ends at the record that the limit falls into. -/
lemma transcribe_of_lt (h : limit < (recordsOf (lines input)).length)
    (whenFull whenFlushed : Option IoError) :
    ∃ k, HoldsByte (lines input) limit k ∧
      transcribe input (Tank.limited limit whenFull whenFlushed) =
        ⟨⟨some limit, whenFull, whenFlushed, (recordsOf (lines input)).take limit, 0⟩,
          skipsFrom 1 ((lines input).take k), .error (whenFull.getD .writeZero)⟩ := by
  have hfails : (Tank.limited limit whenFull whenFlushed).fitting
      (outputOf ((lines input).map Verdict.ofLine)) ≠
        outputOf ((lines input).map Verdict.ofLine) := by
    rw [outputOf_map_ofLine, ne_eq, Tank.fitting_limited]
    omega
  obtain ⟨front, r, back, hverdicts, hfront, hrecord, hrun⟩ :=
    Transcript.ofVerdicts_of_not_fits hfails 1 .none
  rw [Tank.fitting_limited] at hfront
  rw [ne_eq, Tank.fitting_limited, List.length_append, Nat.not_le] at hrecord
  -- the verdicts in front of the record are those of the lines in front of its line
  have htake : ((lines input).take front.length).map Verdict.ofLine = front := by
    rw [List.map_take, hverdicts, List.take_left]
  have hline : ((lines input).map Verdict.ofLine)[front.length]? = some (.recorded r) := by
    rw [hverdicts, List.getElem?_append_right (Nat.le_refl _), Nat.sub_self]
    rfl
  rw [List.getElem?_map, Option.map_eq_some_iff] at hline
  obtain ⟨line, hget, hofLine⟩ := hline
  rw [← htake, outputOf_map_ofLine] at hfront hrecord
  refine ⟨front.length, ⟨line, r, hget, recordOf?_of_ofLine hofLine, hfront, hrecord⟩, ?_⟩
  have hevents : eventsOf 1 front = skipsFrom 1 ((lines input).take front.length) := by
    rw [← eventsOf_map_ofLine, htake]
  rw [transcribe, Transcript.ofRest_eq_ofVerdicts, verdicts, hrun, outputOf_map_ofLine, hevents]
  rfl

/-- **A sink of limited room is left with the beginning of the records that it has room for.**
If that is not all, the run fails as the sink does, without a flush, and has told of the lines
in front of the one that holds the first byte missing.  If it is all, the run tells and counts
as it would without a limit, unless the flush fails. -/
theorem transcribe_limited (input : Bytes) (limit : Nat) (whenFull whenFlushed : Option IoError) :
    let full := transcribe input Tank.unlimited
    let t := transcribe input (Tank.limited limit whenFull whenFlushed)
    full.sink.held = recordsOf (lines input) ∧ full.events = skipsFrom 1 (lines input) ∧
    (limit < full.sink.held.length →
      t.outcome = .error (whenFull.getD .writeZero) ∧
      t.sink.held = full.sink.held.take limit ∧ t.sink.flushes = 0 ∧
      ∃ k, HoldsByte (lines input) limit k ∧ (∀ j, HoldsByte (lines input) limit j → j = k) ∧
        t.events = skipsFrom 1 ((lines input).take k)) ∧
    (full.sink.held.length ≤ limit →
      t.sink.held = full.sink.held ∧ t.sink.flushes = 1 ∧ t.events = full.events ∧
      t.outcome = match whenFlushed with
        | none => full.outcome
        | some e => .error e) := by
  intro full t
  have hheld : full.sink.held = recordsOf (lines input) := by
    simp only [full, transcribe_unlimited_eq]
  have hevents : full.events = skipsFrom 1 (lines input) := by
    simp only [full, transcribe_unlimited_eq]
  refine ⟨hheld, hevents, fun hlt => ?_, fun hle => ?_⟩
  · rw [hheld] at hlt ⊢
    obtain ⟨k, hk, hrun⟩ := transcribe_of_lt hlt whenFull whenFlushed
    rw [show t = _ from hrun]
    exact ⟨rfl, rfl, rfl, k, hk, fun j hj => hj.unique hk, rfl⟩
  · rw [hheld] at hle ⊢
    rw [hevents, show t = _ from transcribe_of_le hle whenFull whenFlushed]
    exact ⟨rfl, rfl, rfl, rfl⟩

end Reckoner
