/-
# A run as a run over verdicts

A run takes lines from what is left of its input, numbers them, counts them and writes as it
goes.  `Transcript.ofVerdicts` does the same for lines whose verdicts are known beforehand;
`Transcript.ofRest_eq_ofVerdicts` says that the two agree on every sink.  Written to a tank, the
records of the verdicts either fit and everything is told and counted
(`Transcript.ofVerdicts_of_fits`), or the run breaks off at the record that does not fit
(`Transcript.ofVerdicts_of_not_fits`).
-/
import Reckoner.Proofs.Lines
import Reckoner.Sink.Tank
import Reckoner.Transcript

namespace Reckoner

/-! ## Lists of verdicts -/

/-- A list of verdicts begins with a line without a record, or with a record. -/
@[elab_as_elim]
lemma verdict_induction {motive : List Verdict → Prop} (nil : motive [])
    (skipped : ∀ v vs, v.isRecorded = false → motive vs → motive (v :: vs))
    (recorded : ∀ r vs, motive vs → motive (.recorded r :: vs)) (vs : List Verdict) :
    motive vs := by
  induction vs with
  | nil => exact nil
  | cons v vs ih =>
    cases v with
    | recorded r => exact recorded r vs ih
    | empty => exact skipped .empty vs rfl ih
    | faulty f => exact skipped (.faulty f) vs rfl ih

variable {v : Verdict}

lemma outputOf_of_skipped (hv : v.isRecorded = false) (vs : List Verdict) :
    outputOf (v :: vs) = outputOf vs := by
  cases v with
  | recorded r => cases hv
  | empty => rfl
  | faulty f => rfl

namespace Report

lemma countSkipped_add (hv : v.isRecorded = false) (report : Report) (vs : List Verdict) :
    report.countScanned.countSkipped + ofVerdicts vs = report + ofVerdicts (v :: vs) := by
  ext <;> simp [ofVerdicts, countScanned, countSkipped, hv] <;> omega

lemma countWritten_add (report : Report) (r : Record) (vs : List Verdict) :
    report.countScanned.countWritten + ofVerdicts vs =
      report + ofVerdicts (.recorded r :: vs) := by
  ext <;> simp [ofVerdicts, countScanned, countWritten, List.countP_cons, Verdict.isRecorded] <;>
    omega

end Report

namespace Transcript

section AnySink

variable {σ : Type} [Sink σ]

/-- The run over lines with the given verdicts, the first of which has the given number.  The
report counts the lines before it. -/
def ofVerdicts (number : Nat) (report : Report) : List Verdict → σ → Transcript σ
  | [], s => finish report s
  | .empty :: vs, s =>
    tell (.emptyLine number) (ofVerdicts (number + 1) report.countScanned.countSkipped vs s)
  | .faulty f :: vs, s =>
    tell (.faultyLine number f) (ofVerdicts (number + 1) report.countScanned.countSkipped vs s)
  | .recorded r :: vs, s =>
    match Sink.writeEach r.portions s with
    | (.error e, s) => ⟨s, [], .error e⟩
    | (.ok (), s) => ofVerdicts (number + 1) report.countScanned.countWritten vs s

/-- A line without a record is told of, and the sink is left alone. -/
lemma ofVerdicts_of_skipped (hv : v.isRecorded = false) (number : Nat) (report : Report)
    (vs : List Verdict) (s : σ) :
    let t := ofVerdicts (number + 1) report.countScanned.countSkipped vs s
    ofVerdicts number report (v :: vs) s =
      { t with events := (v.event? number).toList ++ t.events } := by
  cases v with
  | recorded r => cases hv
  | empty => rfl
  | faulty f => rfl

/-- The run over an input goes by the verdicts on its lines, whatever is left of it. -/
lemma ofRest_eq_ofVerdicts (number : Nat) (report : Report) (rest : Bytes) (s : σ) :
    ofRest number report rest s = ofVerdicts number report (verdicts rest) s := by
  induction h : rest.length using Nat.strongRecOn generalizing number report rest s with
  | _ n ih =>
    rw [ofRest]
    split
    · next hnone => rw [verdicts, lines_of_none hnone, List.map_nil, ofVerdicts]
    · next line rest' hsome =>
      have hlt : rest'.length < n := h ▸ length_of_nextLine? hsome
      rw [verdicts, lines_of_some hsome, List.map_cons]
      cases Verdict.ofLine line with
      | empty => exact congrArg (tell _) (ih _ hlt _ _ _ _ rfl)
      | faulty f => exact congrArg (tell _) (ih _ hlt _ _ _ _ rfl)
      | recorded r =>
        simp only [ofVerdicts]
        cases Sink.writeEach r.portions s with
        | mk result s' =>
          cases result with
          | error e => rfl
          | ok _ => exact ih _ hlt _ _ _ _ rfl

/-- Whatever the sink, a run tells of skipped lines only, in order and without a gap.  If it ends
with counts, they are those of all lines, and it has told of all lines without a record. -/
lemma ofVerdicts_tells (number : Nat) (report : Report) (vs : List Verdict) (s : σ) :
    (ofVerdicts number report vs s).events <+: eventsOf number vs ∧
      ∀ counts, (ofVerdicts number report vs s).outcome = .ok counts →
        (ofVerdicts number report vs s).events = eventsOf number vs ∧
          counts = report + Report.ofVerdicts vs := by
  induction vs using verdict_induction generalizing number report s with
  | nil =>
    refine ⟨List.prefix_rfl, fun counts hcounts => ⟨rfl, ?_⟩⟩
    change (Sink.flush s).1.map (fun () => report) = .ok counts at hcounts
    cases hflush : (Sink.flush s).1 with
    | error e =>
      rw [hflush] at hcounts
      cases hcounts
    | ok _ =>
      rw [hflush] at hcounts
      cases hcounts
      rfl
  | skipped v vs hv ih =>
    obtain ⟨hbegins, hends⟩ := ih (number + 1) report.countScanned.countSkipped s
    rw [ofVerdicts_of_skipped hv, ← report.countSkipped_add hv]
    refine ⟨(List.prefix_append_right_inj _).mpr hbegins, fun counts hcounts => ?_⟩
    obtain ⟨hevents, hreport⟩ := hends counts hcounts
    exact ⟨congrArg ((v.event? number).toList ++ ·) hevents, hreport⟩
  | recorded r vs ih =>
    rw [ofVerdicts, ← report.countWritten_add]
    split
    · exact ⟨List.nil_prefix, fun counts hcounts => nomatch hcounts⟩
    · exact ih (number + 1) report.countScanned.countWritten _

end AnySink

section IntoTank

lemma finish_tank (report : Report) (t : Tank) :
    finish report t =
      ⟨{ t with flushes := t.flushes + 1 }, [],
        match t.whenFlushed with
        | none => .ok report
        | some e => .error e⟩ := by
  rw [finish, Tank.sink_flush, Tank.flush]
  cases t.whenFlushed <;> rfl

/-- **A run whose records fit** tells of every line without one, and counts every line. -/
lemma ofVerdicts_of_fits {vs : List Verdict} {t : Tank}
    (h : t.fitting (outputOf vs) = outputOf vs) (number : Nat) (report : Report) :
    ofVerdicts number report vs t =
      { finish (report + Report.ofVerdicts vs) (t.fill (outputOf vs)) with
        events := eventsOf number vs } := by
  induction vs using verdict_induction generalizing number report t with
  | nil => simp [ofVerdicts, outputOf, Report.ofVerdicts_nil, eventsOf, finish_tank, Tank.fill]
  | skipped v vs hv ih =>
    rw [outputOf_of_skipped hv] at h ⊢
    rw [ofVerdicts_of_skipped hv, ih h, report.countSkipped_add hv]
    rfl
  | recorded r vs ih =>
    obtain ⟨hr, hvs⟩ := (t.fitting_append_eq_iff r.written (outputOf vs)).mp h
    have hih := ih hvs (number + 1) report.countScanned.countWritten
    have hfill : t.fill (outputOf (.recorded r :: vs)) = (t.fill r.written).fill (outputOf vs) :=
      t.fill_append r.written (outputOf vs)
    rw [ofVerdicts, Tank.writeEach_eq, r.flatten_portions, if_pos hr, hfill,
      ← report.countWritten_add]
    exact hih

/-- **A run whose records do not fit** ends at the first record that does not, after what is
told of the lines before it. -/
lemma ofVerdicts_of_not_fits {vs : List Verdict} {t : Tank}
    (h : t.fitting (outputOf vs) ≠ outputOf vs) (number : Nat) (report : Report) :
    ∃ front r back, vs = front ++ .recorded r :: back ∧
      t.fitting (outputOf front) = outputOf front ∧
      t.fitting (outputOf front ++ r.written) ≠ outputOf front ++ r.written ∧
      ofVerdicts number report vs t =
        ⟨t.fill (outputOf vs), eventsOf number front, .error t.refusal⟩ := by
  induction vs using verdict_induction generalizing number report t with
  | nil => exact absurd t.fitting_nil h
  | skipped v vs hv ih =>
    rw [outputOf_of_skipped hv] at h ⊢
    obtain ⟨front, r, back, rfl, hfits, hfails, hrun⟩ :=
      ih h (number + 1) report.countScanned.countSkipped
    refine ⟨v :: front, r, back, rfl, ?_, ?_, ?_⟩
    · rwa [outputOf_of_skipped hv]
    · rwa [outputOf_of_skipped hv]
    · rw [ofVerdicts_of_skipped hv, hrun]
      rfl
  | recorded r vs ih =>
    have hfill : t.fill (outputOf (.recorded r :: vs)) = (t.fill r.written).fill (outputOf vs) :=
      t.fill_append r.written (outputOf vs)
    by_cases hr : t.fitting r.written = r.written
    · have hvs : (t.fill r.written).fitting (outputOf vs) ≠ outputOf vs := fun hvs =>
        h ((t.fitting_append_eq_iff r.written (outputOf vs)).mpr ⟨hr, hvs⟩)
      obtain ⟨front, r', back, rfl, hfits, hfails, hrun⟩ :=
        ih hvs (number + 1) report.countScanned.countWritten
      refine ⟨.recorded r :: front, r', back, rfl, ?_, ?_, ?_⟩
      · exact (t.fitting_append_eq_iff r.written (outputOf front)).mpr ⟨hr, hfits⟩
      · intro hall
        rw [show outputOf (.recorded r :: front) ++ r'.written =
          r.written ++ (outputOf front ++ r'.written) from List.append_assoc ..,
          Tank.fitting_append_eq_iff] at hall
        exact hfails hall.2
      · rw [ofVerdicts, Tank.writeEach_eq, r.flatten_portions, if_pos hr, hfill]
        exact hrun
    · -- the record itself does not fit, and nothing fits behind it
      refine ⟨[], r, vs, rfl, t.fitting_nil, hr, ?_⟩
      rw [ofVerdicts, Tank.writeEach_eq, r.flatten_portions, if_neg hr, hfill,
        Tank.fill_of_fitting_eq_nil (Tank.fitting_fill_of_ne hr _)]
      rfl

end IntoTank

end Transcript
end Reckoner
