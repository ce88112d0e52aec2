/-
# A job changes one file, or nothing

A job that fails before its output is open leaves the whole tree as it was.  From then on nothing
can fail as long as the output is a regular file, and when the job is done that file holds the
records of the input and nothing else, and every other entry of the tree is as it was:
`Job.run_allOrNothing`.  Since the input is read as a whole before the output is opened, it makes
no difference whether the two are the same file.
-/
import Reckoner.Proofs.Buffering
import Reckoner.Proofs.Opening

namespace Reckoner

/-! ## Handles as sinks -/

namespace Handle

variable {fs : FileSystem} {l : Location}

/-- The handle writes to the file at `l`, and has written `held` there. -/
def OnFile (fs : FileSystem) (l : Location) (held : Bytes) (h : Handle) : Prop :=
  h = ⟨fs.put l (.file held), .file l⟩

lemma takesAll_onFile : Sink.TakesAll (OnFile fs l) := by
  have htakes : Sink.Takes (OnFile fs l) List.length write := by
    rintro held h rfl bytes
    refine ⟨⟨fs.put l (.file (held ++ bytes)), .file l⟩, ?_, rfl⟩
    simp [write, FileSystem.append]
  exact ⟨htakes, htakes.writeOffering⟩

lemma flush_eq (h : Handle) : Sink.flush h = (.ok (), h) := rfl

/-- A handle is given its bytes by `write` alone. -/
lemma keeps_of_write {I : Handle → Prop}
    (h : ∀ bytes {handle}, I handle → I (write bytes handle).2) : Sink.Keeps I where
  write := h
  flush := fun hs => hs
  writeAll := fun bytes _ hs => Sink.keeps_offerAll h .writeZero bytes hs

/-- What is written to a device leaves the tree alone. -/
lemma keeps_device (fs : FileSystem) (d : Device) :
    Sink.Keeps fun h : Handle => h = ⟨fs, .device d⟩ := by
  refine keeps_of_write ?_
  rintro bytes _ rfl
  cases d <;> rfl

end Handle

namespace Job

variable {job : Job} {fs : FileSystem} {l : Location} {content : Bytes}

/-! ## The ways in which a job ends -/

lemma run_of_unread {e : IoError} (hread : fs.read job.input = .error e) :
    job.run fs =
      ⟨fs, [.began job.input job.output], .error ⟨.reading, job.input, e⟩⟩ := by
  rw [run, hread]

lemma run_of_uncreated {e : IoError} (hread : fs.read job.input = .ok content)
    (hcreate : fs.create job.output = .error e) :
    job.run fs =
      ⟨fs, [.began job.input job.output, .inputRead content.length],
        .error ⟨.creating, job.output, e⟩⟩ := by
  rw [run, hread]
  simp only [hcreate]

/-- A job whose output is open ends as the run into the buffer in front of it does. -/
lemma run_of_unwritten {handle : Handle} {e : IoError} (hread : fs.read job.input = .ok content)
    (hcreate : fs.create job.output = .ok handle)
    (hfails : (transcribe content (Buffered.of handle)).outcome = .error e) :
    job.run fs =
      ⟨(transcribe content (Buffered.of handle)).sink.close.files,
        .began job.input job.output :: .inputRead content.length ::
          (transcribe content (Buffered.of handle)).events,
        .error ⟨.writing, job.output, e⟩⟩ := by
  rw [run, hread]
  simp only [hcreate, hfails]

lemma run_of_written {handle : Handle} {report : Report}
    (hread : fs.read job.input = .ok content) (hcreate : fs.create job.output = .ok handle)
    (hreport : (transcribe content (Buffered.of handle)).outcome = .ok report) :
    job.run fs =
      ⟨(transcribe content (Buffered.of handle)).sink.close.files,
        .began job.input job.output :: .inputRead content.length ::
          (transcribe content (Buffered.of handle)).events ++ [.finished report],
        .ok report⟩ := by
  rw [run, hread]
  simp only [hcreate, hreport]

lemma exists_report (input : Bytes) :
    ∃ report, (transcribe input Tank.unlimited).outcome = .ok report :=
  ⟨_, by rw [transcribe_unlimited_eq]⟩

lemma run_of_target {report : Report} (hread : fs.read job.input = .ok content)
    (htarget : fs.target? job.output = some l)
    (hreport : (transcribe content Tank.unlimited).outcome = .ok report) :
    job.run fs =
      ⟨fs.put l (.file (transcribe content Tank.unlimited).sink.held),
        .began job.input job.output :: .inputRead content.length ::
          (transcribe content Tank.unlimited).events ++ [.finished report],
        .ok report⟩ := by
  have hopened : Handle.OnFile fs l [] ⟨fs.put l (.file []), .file l⟩ := rfl
  obtain ⟨houtcome, hevents, hinner⟩ :=
    transcribe_of_takesAll Handle.takesAll_onFile (fun _ => Handle.flush_eq _) hopened content
  rw [run_of_written hread (FileSystem.create_of_target? htarget) (houtcome.trans hreport),
    hevents, hinner]

lemma files_run_of_device {d : Device} (hread : fs.read job.input = .ok content)
    (hcreate : fs.create job.output = .ok ⟨fs, .device d⟩) : (job.run fs).files = fs := by
  have hinner := transcribe_keeps (Handle.keeps_device fs d) rfl content
  rw [run, hread]
  simp only [hcreate]
  split <;> rw [hinner]

/-! ## All or nothing -/

/-- The end `r` of a job in the tree `fs`.  If the input cannot be read, or the output cannot be
opened, nothing has changed.  Otherwise, unless the output is a device, the counts are those of
the input, one file is filled with its records, and no other entry has changed. -/
structure AllOrNothing (job : Job) (fs : FileSystem) (r : JobRun) : Prop where
  of_unread : ∀ e, fs.read job.input = .error e →
    r.outcome = .error ⟨.reading, job.input, e⟩ ∧ r.files = fs
  of_uncreated : ∀ content e, fs.read job.input = .ok content →
    fs.create job.output = .error e →
    r.outcome = .error ⟨.creating, job.output, e⟩ ∧ r.files = fs
  of_target : ∀ content l, fs.read job.input = .ok content → fs.target? job.output = some l →
    (∃ report, (transcribe content Tank.unlimited).outcome = .ok report ∧
      r.outcome = .ok report) ∧
    r.files.get? l = some (.file (transcribe content Tank.unlimited).sink.held) ∧
    r.files.read job.output = .ok (transcribe content Tank.unlimited).sink.held ∧
    (∀ l', l' ≠ l → r.files.get? l' = fs.get? l') ∧ r.files.home = fs.home
  /-- The input may be the output itself: what counts is its content before. -/
  of_same_file : ∀ content l, fs.resolve .find job.input = .ok (.file l content) →
    fs.target? job.output = some l →
    r.files.get? l = some (.file (transcribe content Tank.unlimited).sink.held)

/-- **A job fills one file with the records of its input, or leaves the tree as it was.** -/
theorem run_allOrNothing (job : Job) (fs : FileSystem) : AllOrNothing job fs (job.run fs) := by
  have htarget : ∀ content l, fs.read job.input = .ok content →
      fs.target? job.output = some l →
      (job.run fs).files = fs.put l (.file (transcribe content Tank.unlimited).sink.held) := by
    intro content l hread htarget
    obtain ⟨report, hreport⟩ := exists_report content
    rw [run_of_target hread htarget hreport]
  constructor
  case of_unread =>
    intro e hread
    rw [run_of_unread hread]
    exact ⟨rfl, rfl⟩
  case of_uncreated =>
    intro content e hread hcreate
    rw [run_of_uncreated hread hcreate]
    exact ⟨rfl, rfl⟩
  case of_target =>
    intro content l hread hl
    obtain ⟨report, hreport⟩ := exists_report content
    refine ⟨⟨report, hreport, by rw [run_of_target hread hl hreport]⟩, ?_⟩
    rw [htarget content l hread hl]
    exact FileSystem.filled_put_target hl _
  case of_same_file =>
    intro content l hfile hl
    rw [htarget content l (FileSystem.read_of_resolve_file hfile) hl]
    exact FileSystem.get?_put_self fs l _

end Job
end Reckoner
