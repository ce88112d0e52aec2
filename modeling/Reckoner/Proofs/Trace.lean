/-
# What a job tells of, and how it ends

A job tells of its beginning, of the size of its input, of the lines that it skips and of its end.
How far it comes in this list is how far it has come itself: `Job.Ends` has one way of ending for
each stage, with what was told up to there, and `Job.run_tells` says that every job ends in one of
these ways.  So what was told, the failure and the counts never contradict one another.

While lines are being read it does not matter what the output is: a run into any sink tells of the
first of the lines to skip, and of all of them if it ends with counts
(`isPrefix_events_transcribe`, `transcribe_of_ok`).
-/
import Reckoner.Proofs.Filling

namespace Reckoner

section AnySink

variable {σ : Type} [Sink σ]

lemma isPrefix_events_transcribe (input : Bytes) (s : σ) :
    (transcribe input s).events <+: (transcribe input Tank.unlimited).events := by
  have htells := Transcript.ofVerdicts_tells 1 .none (verdicts input) s
  rw [transcribe_unlimited_eq, ← eventsOf_map_ofLine, transcribe,
    Transcript.ofRest_eq_ofVerdicts]
  exact htells.1

/-- A run that ends with counts has told and counted what a run into an unlimited sink does. -/
lemma transcribe_of_ok {input : Bytes} {s : σ} {report : Report}
    (h : (transcribe input s).outcome = .ok report) :
    (transcribe input s).events = (transcribe input Tank.unlimited).events ∧
      (transcribe input Tank.unlimited).outcome = .ok report := by
  rw [transcribe, Transcript.ofRest_eq_ofVerdicts] at h
  obtain ⟨hevents, hreport⟩ := (Transcript.ofVerdicts_tells 1 .none (verdicts input) s).2 report h
  rw [transcribe_unlimited_eq, transcribe, Transcript.ofRest_eq_ofVerdicts, hreport,
    Report.none_add, verdicts, ofVerdicts_map_ofLine]
  exact ⟨hevents.trans (eventsOf_map_ofLine 1 _), rfl⟩

end AnySink

/-! ## The numbers of the lines that are told of -/

/-- The numbers of the lines that events tell of. -/
def lineNumbers (events : List Event) : List Nat := events.filterMap Event.line?

/-- Events that all tell of a line have as many line numbers. -/
lemma length_lineNumbers {events : List Event} (h : ∀ e ∈ events, ∃ k, e.line? = some k) :
    (lineNumbers events).length = events.length := by
  induction events with
  | nil => rfl
  | cons e events ih =>
    obtain ⟨k, hk⟩ := h e (by simp)
    rw [lineNumbers, List.filterMap_cons_some hk, List.length_cons, List.length_cons]
    exact congrArg (· + 1) (ih fun e' he' => h e' (by simp [he']))

variable {content : Bytes}

/-- Every event of a run over lines tells of one of them. -/
lemma exists_line?_of_mem_events {e : Event}
    (h : e ∈ (transcribe content Tank.unlimited).events) :
    ∃ k, e.line? = some k ∧ 1 ≤ k ∧ k ≤ (lines content).length := by
  rw [transcribe_unlimited_eq] at h
  obtain ⟨line, k, hmem, hline, -⟩ := of_mem_skipsFrom h
  have hlt := List.snd_lt_add_of_mem_zipIdx hmem
  exact ⟨k, hline, List.le_snd_of_mem_zipIdx hmem, by omega⟩

/-- What tells of no line is not told of while lines are read. -/
lemma notMem_of_line? {skips : List Event}
    (h : skips <+: (transcribe content Tank.unlimited).events) {e : Event} (he : e.line? = none) :
    e ∉ skips := by
  intro hmem
  obtain ⟨k, hline, -⟩ := exists_line?_of_mem_events (h.subset hmem)
  rw [he] at hline
  cases hline

/-- The lines that are told of come in order, also if not all of them are. -/
lemma pairwise_lineNumbers {skips : List Event}
    (h : skips <+: (transcribe content Tank.unlimited).events) :
    (lineNumbers skips).Pairwise (· < ·) := by
  rw [transcribe_unlimited_eq] at h
  exact (pairwise_skipsFrom 1 (lines content)).sublist (h.sublist.filterMap Event.line?)

/-- The counts of a run agree with the lines that it tells of. -/
lemma lineNumbers_events {report : Report}
    (h : (transcribe content Tank.unlimited).outcome = .ok report) :
    (lineNumbers (transcribe content Tank.unlimited).events).length = report.skipped ∧
      ∀ k ∈ lineNumbers (transcribe content Tank.unlimited).events,
        1 ≤ k ∧ k ≤ report.scanned := by
  have hscanned : report.scanned = (lines content).length := by
    rw [transcribe_unlimited_eq, Except.ok.injEq] at h
    rw [← h]
  have hskipped : report.skipped = (transcribe content Tank.unlimited).events.length := by
    rw [transcribe_unlimited_eq, Except.ok.injEq] at h
    rw [← h, transcribe_unlimited_eq]
  constructor
  · rw [hskipped]
    refine length_lineNumbers fun e he => ?_
    obtain ⟨k, hk, -⟩ := exists_line?_of_mem_events he
    exact ⟨k, hk⟩
  · intro k hk
    obtain ⟨e, he, hline⟩ := List.mem_filterMap.mp hk
    obtain ⟨k', hline', hbounds⟩ := exists_line?_of_mem_events he
    rw [hline, Option.some.injEq] at hline'
    rw [hscanned, hline']
    exact hbounds

/-- What a job tells of before it reads lines has no line number. -/
lemma lineNumbers_begun (input output : String) (size : Nat) (skips : List Event) :
    lineNumbers (.began input output :: .inputRead size :: skips) = lineNumbers skips := rfl

lemma lineNumbers_finished (events : List Event) (report : Report) :
    lineNumbers (events ++ [.finished report]) = lineNumbers events := by
  rw [lineNumbers, List.filterMap_append]
  exact List.append_nil _

namespace Job

variable {job : Job} {fs : FileSystem} {events : List Event} {outcome : Except FileFault Report}

/-! ## The ways in which a job ends -/

/-- How a job ends, with the events up to there. -/
inductive Ends (job : Job) (fs : FileSystem) : List Event → Except FileFault Report → Prop
  | unread {e : IoError} (hread : fs.read job.input = .error e) :
    Ends job fs [.began job.input job.output] (.error ⟨.reading, job.input, e⟩)
  | uncreated {content : Bytes} {e : IoError} (hread : fs.read job.input = .ok content)
    (hcreate : fs.create job.output = .error e) :
    Ends job fs [.began job.input job.output, .inputRead content.length]
      (.error ⟨.creating, job.output, e⟩)
  /-- Of the lines to skip some of the first may have been told of. -/
  | unwritten {content : Bytes} {handle : Handle} {skips : List Event} {e : IoError}
    (hread : fs.read job.input = .ok content) (hcreate : fs.create job.output = .ok handle)
    (hskips : skips <+: (transcribe content Tank.unlimited).events) :
    Ends job fs (.began job.input job.output :: .inputRead content.length :: skips)
      (.error ⟨.writing, job.output, e⟩)
  | written {content : Bytes} {handle : Handle} {report : Report}
    (hread : fs.read job.input = .ok content) (hcreate : fs.create job.output = .ok handle)
    (hreport : (transcribe content Tank.unlimited).outcome = .ok report) :
    Ends job fs (.began job.input job.output :: .inputRead content.length ::
      (transcribe content Tank.unlimited).events ++ [.finished report]) (.ok report)

lemma ends_run (job : Job) (fs : FileSystem) :
    Ends job fs (job.run fs).events (job.run fs).outcome := by
  -- one case for each point at which a job can be left
  cases hread : fs.read job.input with
  | error e =>
    rw [run_of_unread hread]
    exact .unread hread
  | ok content =>
    cases hcreate : fs.create job.output with
    | error e =>
      rw [run_of_uncreated hread hcreate]
      exact .uncreated hread hcreate
    | ok handle =>
      cases houtcome : (transcribe content (Buffered.of handle)).outcome with
      | error e =>
        rw [run_of_unwritten hread hcreate houtcome]
        exact .unwritten hread hcreate (isPrefix_events_transcribe content _)
      | ok report =>
        obtain ⟨hevents, hreport⟩ := transcribe_of_ok houtcome
        rw [run_of_written hread hcreate houtcome, hevents]
        exact .written hread hcreate hreport

namespace Ends

/-- The size that is told of is that of the input. -/
lemma inputRead_mem_iff (h : Ends job fs events outcome) (size : Nat) :
    .inputRead size ∈ events ↔
      ∃ content, fs.read job.input = .ok content ∧ size = content.length := by
  cases h with
  | unread hread => simp [hread]
  | uncreated hread hcreate => simp [hread]
  | unwritten hread hcreate hskips =>
    simp [hread, notMem_of_line? hskips (e := .inputRead size) rfl]
  | written hread hcreate hreport =>
    simp [hread, notMem_of_line? List.prefix_rfl (e := .inputRead size) rfl]

/-- The size of the input is told of unless reading it failed. -/
lemma exists_inputRead_iff (h : Ends job fs events outcome) :
    (∃ size, .inputRead size ∈ events) ↔ ∀ f, outcome = .error f → f.stage ≠ .reading := by
  cases h with
  | unread hread => simp
  | uncreated hread hcreate => simp
  | unwritten hread hcreate hskips => simp
  | written hread hcreate hreport => simp

/-- The end is told of, with the counts, if the job went well. -/
lemma finished_mem_iff (h : Ends job fs events outcome) (report : Report) :
    .finished report ∈ events ↔ outcome = .ok report := by
  cases h with
  | unread hread => simp
  | uncreated hread hcreate => simp
  | unwritten hread hcreate hskips =>
    simp [notMem_of_line? hskips (e := .finished report) rfl]
  | written hread hcreate hreport =>
    simp [notMem_of_line? List.prefix_rfl (e := .finished report) rfl, eq_comm]

lemma pairwise_lineNumbers (h : Ends job fs events outcome) :
    (lineNumbers events).Pairwise (· < ·) := by
  cases h with
  | unread hread => exact .nil
  | uncreated hread hcreate => exact .nil
  | unwritten hread hcreate hskips =>
    rw [lineNumbers_begun]
    exact Reckoner.pairwise_lineNumbers hskips
  | written hread hcreate hreport =>
    rw [lineNumbers_finished, lineNumbers_begun]
    exact Reckoner.pairwise_lineNumbers List.prefix_rfl

/-- The counts of a job agree with the lines that it has told of. -/
lemma lineNumbers_of_ok {report : Report} (h : Ends job fs events (.ok report)) :
    (lineNumbers events).length = report.skipped ∧
      ∀ k ∈ lineNumbers events, 1 ≤ k ∧ k ≤ report.scanned := by
  cases h with
  | written hread hcreate hreport =>
    rw [lineNumbers_finished, lineNumbers_begun]
    exact lineNumbers_events hreport

end Ends

/-- What a job has told of when it has come to the end `r` in the tree `fs`. -/
structure Tells (job : Job) (fs : FileSystem) (r : JobRun) : Prop where
  /-- The events are those up to the stage that was reached, and the outcome is that of it. -/
  ends : Ends job fs r.events r.outcome
  exists_inputRead_iff : (∃ size, .inputRead size ∈ r.events) ↔
    ∀ f, r.outcome = .error f → f.stage ≠ .reading
  inputRead_mem_iff : ∀ size, .inputRead size ∈ r.events ↔
    ∃ content, fs.read job.input = .ok content ∧ size = content.length
  finished_mem_iff : ∀ report, .finished report ∈ r.events ↔ r.outcome = .ok report
  increasing : (lineNumbers r.events).Pairwise (· < ·)
  of_ok : ∀ report, r.outcome = .ok report →
    (lineNumbers r.events).length = report.skipped ∧
    ∀ k ∈ lineNumbers r.events, 1 ≤ k ∧ k ≤ report.scanned

/-- **A job tells of each stage that it has reached, and of nothing else.**  What it has told
decides how it ended, and fits the counts. -/
theorem run_tells (job : Job) (fs : FileSystem) : Tells job fs (job.run fs) where
  ends := ends_run job fs
  exists_inputRead_iff := (ends_run job fs).exists_inputRead_iff
  inputRead_mem_iff := (ends_run job fs).inputRead_mem_iff
  finished_mem_iff := (ends_run job fs).finished_mem_iff
  increasing := (ends_run job fs).pairwise_lineNumbers
  of_ok := fun _ hreport => Ends.lineNumbers_of_ok (hreport ▸ ends_run job fs)

end Job
end Reckoner
