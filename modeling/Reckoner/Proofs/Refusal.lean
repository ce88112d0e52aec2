/-
# A buffer hides no failure

A sink may refuse every byte.  Behind a buffer this shows late: records go into the buffer until
it overflows, a long label goes past it, and what the buffer still holds at the end is refused at
the flush.  A run into such a sink fails nevertheless as soon as there is a record at all:
`transcribe_of_refuses`.  When it fails it has told of some of the skipped lines, and of all of
them if the records fit into the buffer, since then nothing is passed on before the flush; this
does not even depend on the sink (`Transcript.events_ofVerdicts_of_room`).

The main result, `Job.run_into_full`, says this of a job whose output is a full device.
-/
import Reckoner.Proofs.Trace
import Reckoner.Proofs.WholeProgram

namespace Reckoner

variable {σ : Type}

/-- The sink fails at everything that it is offered, and stays as it is. -/
structure Sink.Refuses [Sink σ] (e : IoError) (s : σ) : Prop where
  write : ∀ {bytes}, bytes ≠ [] → Sink.write bytes s = (.error e, s)
  flush : Sink.flush s = (.ok (), s)
  writeAll : ∀ bytes, Sink.writeAll bytes s = (if bytes = [] then .ok () else .error e, s)

/-- The refusal ends the offers at once. -/
lemma Sink.offerAll_of_refused {write : Bytes → σ → Except IoError Nat × σ} {e : IoError} {s : σ}
    {bytes : Bytes} (hne : bytes ≠ []) (h : write bytes s = (.error e, s)) (stalled : IoError) :
    offerAll write stalled bytes s = (.error e, bytes, s) := by
  obtain ⟨b, rest, rfl⟩ := List.exists_cons_of_ne_nil hne
  rw [offerAll_cons, h]

/-! ## Records and their portions -/

namespace Record

lemma written_ne_nil (r : Record) : r.written ≠ [] := by
  simp [written]

/-- No portion is the whole record: the equals sign and the line feed are portions of their
own. -/
lemma length_lt_of_mem_portions {r : Record} {portion : Bytes} (h : portion ∈ r.portions) :
    portion.length < r.written.length := by
  have hkind : portion = r.label ∨ portion.length = 1 ∨
      portion = Decimal.ofNat r.value.toInt.natAbs := by
    simp only [portions, List.mem_append, List.mem_cons, List.not_mem_nil, or_false] at h
    rcases h with ((rfl | rfl) | hsign) | rfl | rfl
    · exact .inl rfl
    · exact .inr (.inl rfl)
    · right; left
      split at hsign
      · rw [List.mem_singleton.mp hsign]
        rfl
      · cases hsign
    · exact .inr (.inr rfl)
    · exact .inr (.inl rfl)
  have hlen : r.written.length = r.label.length + 1 + (Decimal.sign r.value.toInt).length +
      (Decimal.ofNat r.value.toInt.natAbs).length + 1 := by
    simp only [written, Decimal.ofInt_eq_sign_append, List.length_append, List.length_cons,
      List.length_nil]
    omega
  have hdigits := List.length_pos_iff.mpr (Decimal.ofNat_ne_nil r.value.toInt.natAbs)
  rcases hkind with rfl | hone | rfl <;> omega

end Record

lemma recordsOf_eq_nil_iff {ls : List Bytes} :
    recordsOf ls = [] ↔ (ls.filterMap recordOf?).length = 0 := by
  rw [recordsOf, List.flatMap_eq_nil_iff, List.length_eq_zero_iff]
  constructor
  · intro h
    exact List.eq_nil_iff_forall_not_mem.mpr fun r hr => r.written_ne_nil (h r hr)
  · intro h
    simp [h]

/-! ## Writing into the buffer -/

namespace Buffered

/-- The buffer with more bytes in it. -/
def hold (b : Buffered σ) (bytes : Bytes) : Buffered σ := { b with pending := b.pending ++ bytes }

@[simp] lemma hold_nil (b : Buffered σ) : b.hold [] = b := by
  simp [hold]

lemma hold_hold (b : Buffered σ) (bytes more : Bytes) :
    (b.hold bytes).hold more = b.hold (bytes ++ more) := by
  simp [hold]

variable [Sink σ] {b : Buffered σ} {e : IoError} {bytes : Bytes} {portions : List Bytes}

/-- What there is room for does not go further than the buffer. -/
lemma writeAll_of_room (hroom : b.pending.length + bytes.length ≤ b.capacity)
    (hshort : bytes.length < b.capacity) :
    Sink.writeAll bytes b = (.ok (), b.hold bytes) := by
  show b.writeAll bytes = _
  rw [writeAll, receive, if_pos hroom, accept, if_neg (Nat.not_le.mpr hshort)]
  rfl

lemma writeEach_of_room (hroom : b.pending.length + portions.flatten.length ≤ b.capacity)
    (hshort : ∀ portion ∈ portions, portion.length < b.capacity) :
    Sink.writeEach portions b = (.ok (), b.hold portions.flatten) := by
  induction portions generalizing b with
  | nil => rw [Sink.writeEach, List.flatten_nil, hold_nil]
  | cons portion portions ih =>
    rw [List.flatten_cons, List.length_append] at hroom
    rw [Sink.writeEach, writeAll_of_room (by omega) (hshort portion (by simp)), List.flatten_cons,
      ← hold_hold]
    refine ih ?_ fun p hp => hshort p (by simp [hp])
    simp only [hold, List.length_append]
    omega

variable (h : Sink.Refuses e b.inner)
include h

/-- What the buffer holds is refused when it is passed on, and the buffer keeps it. -/
lemma drain_of_refuses : b.drain = (if b.pending = [] then .ok () else .error e, b) := by
  by_cases hempty : b.pending = []
  · rw [drain, hempty, Sink.offerAll_nil, if_pos rfl]
    cases b
    cases hempty
    rfl
  · rw [drain, Sink.offerAll_of_refused hempty (h.write hempty), if_neg hempty]

lemma accept_of_refuses (bytes : Bytes) :
    b.accept bytes () (Sink.writeAll bytes) = (.ok (), b.hold bytes) ∨
      b.accept bytes () (Sink.writeAll bytes) = (.error e, b) := by
  unfold accept
  split_ifs
  · rw [h.writeAll]
    by_cases hempty : bytes = []
    · rw [if_pos hempty, hempty, hold_nil]
      exact .inl rfl
    · rw [if_neg hempty]
      exact .inr rfl
  · exact .inl rfl

/-- Bytes go into the buffer, or the refusal shows. -/
lemma writeAll_of_refuses (bytes : Bytes) :
    Sink.writeAll bytes b = (.ok (), b.hold bytes) ∨ Sink.writeAll bytes b = (.error e, b) := by
  show b.writeAll bytes = _ ∨ b.writeAll bytes = _
  unfold writeAll receive
  split_ifs
  · exact accept_of_refuses h bytes
  · rw [drain_of_refuses h]
    split_ifs
    · exact accept_of_refuses h bytes
    · exact .inr rfl

lemma writeEach_of_refuses (portions : List Bytes) :
    Sink.writeEach portions b = (.ok (), b.hold portions.flatten) ∨
      ∃ b', Sink.writeEach portions b = (.error e, b') := by
  induction portions generalizing b with
  | nil => exact .inl (by rw [Sink.writeEach, List.flatten_nil, hold_nil])
  | cons portion portions ih =>
    rcases writeAll_of_refuses h portion with hwrite | hwrite
    · rw [Sink.writeEach, hwrite, List.flatten_cons, ← hold_hold]
      exact ih h
    · exact .inr ⟨b, by rw [Sink.writeEach, hwrite]⟩

/-- What the buffer still holds is refused at the flush. -/
lemma flush_of_refuses :
    (Sink.flush b).1 = if b.pending = [] then .ok () else .error e := by
  show b.flush.1 = _
  rw [flush, drain_of_refuses h]
  by_cases hempty : b.pending = []
  · simp only [if_pos hempty, h.flush]
  · simp only [if_neg hempty]

end Buffered

/-! ## Runs into the buffer -/

namespace Transcript

variable [Sink σ] {b : Buffered σ} {e : IoError}

/-- Whatever is behind the buffer, if there is room for all records, then every skipped line is
told of before anything can fail. -/
lemma events_ofVerdicts_of_room {vs : List Verdict}
    (hroom : b.pending.length + (outputOf vs).length ≤ b.capacity) (number : Nat)
    (report : Report) : (ofVerdicts number report vs b).events = eventsOf number vs := by
  induction vs using verdict_induction generalizing number report b with
  | nil => rfl
  | skipped v vs hv ih =>
    rw [outputOf_of_skipped hv] at hroom
    rw [ofVerdicts_of_skipped hv, ih hroom]
    rfl
  | recorded r vs ih =>
    have hsplit : (outputOf (.recorded r :: vs)).length =
        r.written.length + (outputOf vs).length := List.length_append
    rw [hsplit] at hroom
    have hwrite : Sink.writeEach r.portions b = (.ok (), b.hold r.written) := by
      rw [← r.flatten_portions]
      refine Buffered.writeEach_of_room (by rw [r.flatten_portions]; omega) fun portion hp => ?_
      have hlt := Record.length_lt_of_mem_portions hp
      omega
    rw [ofVerdicts, hwrite]
    refine ih ?_ (number + 1) report.countScanned.countWritten
    simp only [Buffered.hold, List.length_append]
    omega

/-- Whether a run into a sink that refuses fails is decided by what is written in all, and not by
when the buffer overflows. -/
lemma ofVerdicts_of_refuses (h : Sink.Refuses e b.inner) (number : Nat) (report : Report)
    (vs : List Verdict) :
    (ofVerdicts number report vs b).outcome =
      if b.pending ++ outputOf vs = [] then .ok (report + Report.ofVerdicts vs)
      else .error e := by
  induction vs using verdict_induction generalizing number report b with
  | nil =>
    have hflush := Buffered.flush_of_refuses h
    show (Sink.flush b).1.map (fun () => report) = _
    rw [hflush, outputOf, List.flatMap_nil, List.append_nil]
    split <;> rfl
  | skipped v vs hv ih =>
    rw [ofVerdicts_of_skipped hv, outputOf_of_skipped hv, ← report.countSkipped_add hv]
    exact ih h (number + 1) report.countScanned.countSkipped
  | recorded r vs ih =>
    rcases Buffered.writeEach_of_refuses h r.portions with hwrite | ⟨b', hwrite⟩
    · -- the record is in the buffer, where the flush will come upon it
      have houtcome :=
        ih (b := b.hold r.portions.flatten) h (number + 1) report.countScanned.countWritten
      rw [ofVerdicts, hwrite, ← report.countWritten_add]
      refine houtcome.trans ?_
      simp [Buffered.hold, r.flatten_portions, outputOf, Verdict.output]
    · rw [ofVerdicts, hwrite, if_neg]
      simp [outputOf, Verdict.output, r.written_ne_nil]

end Transcript

/-- **A run through a buffer into a sink that refuses everything** fails exactly if there is a
record, and tells of the skipped lines in order, up to where the failure shows. -/
lemma transcribe_of_refuses [Sink σ] {e : IoError} {s : σ} (h : Sink.Refuses e s) (input : Bytes) :
    let full := transcribe input Tank.unlimited
    let t := transcribe input (Buffered.of s)
    t.outcome = (if full.sink.held = [] then full.outcome else .error e) ∧
      t.events <+: full.events ∧ (full.sink.held.length ≤ 8192 → t.events = full.events) := by
  have hrun := Transcript.ofVerdicts_of_refuses (b := Buffered.of s) h 1 .none (verdicts input)
  have hroom := @Transcript.events_ofVerdicts_of_room _ _ (Buffered.of s) (verdicts input)
  simp only [verdicts, outputOf_map_ofLine, eventsOf_map_ofLine, ofVerdicts_map_ofLine,
    Report.none_add] at hrun hroom
  refine ⟨?_, isPrefix_events_transcribe input _, fun hle => ?_⟩
  · rw [transcribe_unlimited_eq, transcribe, Transcript.ofRest_eq_ofVerdicts]
    exact hrun
  · rw [transcribe_unlimited_eq] at hle ⊢
    rw [transcribe, Transcript.ofRest_eq_ofVerdicts]
    exact hroom (by simpa [Buffered.of] using hle) 1 .none

/-! ## Jobs with a full device for output -/

/-- The full device refuses everything for want of room. -/
lemma Handle.refuses_full (fs : FileSystem) :
    Sink.Refuses .storageFull (⟨fs, .device .full⟩ : Handle) := by
  have hwrite : ∀ {bytes}, bytes ≠ [] →
      write bytes ⟨fs, .device .full⟩ = (.error .storageFull, ⟨fs, .device .full⟩) := by
    intro bytes hne
    rw [write]
    simp only [hne, if_false]
  refine ⟨hwrite, rfl, fun bytes => ?_⟩
  show Sink.writeOffering write bytes _ = _
  by_cases hempty : bytes = []
  · rw [hempty, Sink.writeOffering, Sink.offerAll_nil, if_pos rfl]
  · rw [Sink.writeOffering, Sink.offerAll_of_refused hempty (hwrite hempty), if_neg hempty]

namespace Job

variable {job : Job} {fs : FileSystem} {content : Bytes}

/-- The end of a job is not told of by the run over the lines. -/
lemma finished_notMem_events {input : Bytes} (report : Report) :
    Event.finished report ∉ (transcribe input Tank.unlimited).events :=
  notMem_of_line? List.prefix_rfl rfl

/-- Nothing is written exactly if no record is counted. -/
lemma exists_report_held (input : Bytes) :
    ∃ report, (transcribe input Tank.unlimited).outcome = .ok report ∧
      ((transcribe input Tank.unlimited).sink.held = [] ↔ report.written = 0) := by
  rw [transcribe_unlimited_eq]
  exact ⟨_, rfl, recordsOf_eq_nil_iff⟩

lemma create_of_full (hfull : fs.resolve .find job.output = .ok (.device .full)) :
    fs.create job.output = .ok ⟨fs, .device .full⟩ := by
  rw [FileSystem.create, FileSystem.resolve_create_of_find hfull (by simp)]

/-- The output is not emptied, and the job is run at once. -/
lemma exitCode_of_full (hfull : fs.resolve .find job.output = .ok (.device .full)) {f : FileFault}
    (hrun : (job.run fs).outcome = .error f) {arguments : List String}
    (harguments : Invocation.ofArguments arguments = .run job) :
    (Program.run arguments fs).exitCode = 1 := by
  have hemptied : fs.emptied job.output = fs :=
    FileSystem.emptied_of_not_file (by simp [hfull])
  have hprogram : Program.run arguments fs = Program.runJob job fs := by
    rw [Program.run, harguments]
  rw [hprogram, Program.runJob_of_not_directory (by simp [hfull]), hemptied, Program.ofJobRun, hrun]

/-- **A job into a full device fails if there is a record to write,** although its records go into
a buffer first: with the failure of the device, at the output, and with exit code 1 of the
program.  It has told of the skipped lines up to where the failure showed, of all of them if the
records fit into the buffer, and not of the end of a run.  Without a record it goes well. -/
theorem run_into_full (hread : fs.read job.input = .ok content)
    (hfull : fs.resolve .find job.output = .ok (.device .full)) :
    let full := transcribe content Tank.unlimited
    let r := job.run fs
    ∃ report, full.outcome = .ok report ∧
      (1 ≤ report.written →
        r.outcome = .error ⟨.writing, job.output, .storageFull⟩ ∧
        (∃ skips, r.events = .began job.input job.output :: .inputRead content.length :: skips ∧
          skips <+: full.events ∧ (full.sink.held.length ≤ 8192 → skips = full.events)) ∧
        (∀ report', .finished report' ∉ r.events) ∧
        ∀ arguments, Invocation.ofArguments arguments = .run job →
          (Program.run arguments fs).exitCode = 1) ∧
      (¬1 ≤ report.written →
        r.outcome = .ok report ∧
        r.events = .began job.input job.output :: .inputRead content.length ::
          full.events ++ [.finished report]) := by
  intro full r
  have hcreate := create_of_full hfull
  obtain ⟨houtcome, htold, hroom⟩ := transcribe_of_refuses (Handle.refuses_full fs) content
  obtain ⟨report, hreport, hheld⟩ := exists_report_held content
  refine ⟨report, hreport, fun hwritten => ?_, fun hnone => ?_⟩
  · have hne : full.sink.held ≠ [] := fun hnil => by
      rw [hheld.mp hnil] at hwritten
      exact absurd hwritten (by decide)
    rw [if_neg hne] at houtcome
    have hrun : r = _ := run_of_unwritten hread hcreate houtcome
    refine ⟨by rw [hrun], ⟨_, by rw [hrun], htold, hroom⟩, fun report' hmem => ?_,
      fun arguments => exitCode_of_full hfull (congrArg JobRun.outcome hrun)⟩
    -- what it has told of are skipped lines
    rw [hrun, List.mem_cons, List.mem_cons] at hmem
    rcases hmem with hbegan | hread | hskip
    · cases hbegan
    · cases hread
    · exact finished_notMem_events report' (htold.subset hskip)
  · have hnil : full.sink.held = [] := hheld.mpr (by omega)
    have hevents : (transcribe content (Buffered.of _)).events = full.events :=
      hroom (by rw [show (transcribe content Tank.unlimited).sink.held = [] from hnil]; decide)
    rw [if_pos hnil] at houtcome
    have hrun : r = _ := run_of_written hread hcreate (houtcome.trans hreport)
    rw [hrun, hevents]
    exact ⟨rfl, rfl⟩

/-- The record of `1+1x` is in the buffer when the device refuses it, and the line behind it has
been told of. -/
theorem run_into_full_at_flush :
    let input : Bytes := [0x31, 0x2B, 0x31, 0x78, Bytes.lineFeed, 0x78]
    let fs := FileSystem.fresh.put ["in", "work"] (.file input)
    let job : Job := ⟨"in", "/dev/full"⟩
    fs.read job.input = .ok input ∧ fs.resolve .find job.output = .ok (.device .full) ∧
      (job.run fs).outcome = .error ⟨.writing, "/dev/full", .storageFull⟩ ∧
      (job.run fs).events =
        [.began "in" "/dev/full", .inputRead 6, .faultyLine 2 (.noExpression [])] ∧
      (Program.run ["in", "/dev/full"] fs).exitCode = 1 := by
  intro input fs job
  have hread : fs.read job.input = .ok input := by decide +kernel
  have hfull : fs.resolve .find job.output = .ok (.device .full) := by decide +kernel
  have hreport : (transcribe input Tank.unlimited).outcome = .ok ⟨2, 1, 1⟩ := by decide +kernel
  have hheld : (transcribe input Tank.unlimited).sink.held =
      [0x31, 0x2B, Bytes.equalsSign, 0x32, Bytes.lineFeed] := by
    decide +kernel
  have hskips : (transcribe input Tank.unlimited).events =
      [.faultyLine 2 (.noExpression [])] := by
    decide +kernel
  have harguments : Invocation.ofArguments ["in", "/dev/full"] = .run job := by decide +kernel
  obtain ⟨report, hreport', hfails, -⟩ := run_into_full hread hfull
  rw [hreport, Except.ok.injEq] at hreport'
  subst hreport'
  obtain ⟨houtcome, ⟨skips, hevents, -, hroom⟩, -, hexit⟩ := hfails (by decide)
  rw [hheld, hskips] at hroom
  rw [hroom (by decide)] at hevents
  exact ⟨hread, hfull, houtcome, hevents, hexit _ harguments⟩

end Job
end Reckoner
