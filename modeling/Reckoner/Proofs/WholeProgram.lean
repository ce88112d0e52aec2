/-
# What a run of the program leaves behind

The program opens its output twice, first to clear it and then to fill it, and reads its input in
between.  Both times it comes to the same file, so that a run ends in one of four ways, by what
the two paths lead to in the tree whose output has been emptied: `Program.run_outcome`.  An
output that is a directory stops the run before anything has changed; a job that fails leaves the
output empty; and a job on one file, given as input and as output, finds that file empty already.
-/
import Reckoner.Program
import Reckoner.Proofs.Filling

namespace Reckoner.Program

variable {job : Job} {fs : FileSystem}

/-- What a run of the program leaves behind whose job has been run. -/
def ofJobRun (job : Job) (r : JobRun) : ProgramRun :=
  match r.outcome with
  | .error f => ⟨1, notProcessed f, "", r.files⟩
  | .ok _ => ⟨0, done job, "", r.files⟩

lemma files_ofJobRun (job : Job) (r : JobRun) : (ofJobRun job r).files = r.files := by
  unfold ofJobRun
  split <;> rfl

lemma runJob_of_directory {l : Location}
    (h : fs.resolve .find job.output = .ok (.directory l)) :
    runJob job fs = ⟨1, notCleared ⟨.clearing, job.output, .isADirectory⟩, "", fs⟩ := by
  rw [runJob, FileSystem.clear_of_directory h]

/-- Unless its output is a directory, the job is run in the tree whose output has been emptied. -/
lemma runJob_of_not_directory (h : ∀ l, fs.resolve .find job.output ≠ .ok (.directory l)) :
    runJob job fs = ofJobRun job (job.run (fs.emptied job.output)) := by
  rw [runJob, FileSystem.clear_of_not_directory h]
  rfl

/-- The end `r` of a run on two paths in the tree `fs`.  The way it ends is decided in the tree
whose output has been emptied. -/
structure Outcome (job : Job) (fs : FileSystem) (r : ProgramRun) : Prop where
  of_directory : ∀ l, fs.resolve .find job.output = .ok (.directory l) →
    r.exitCode = 1 ∧
    r.stdout = "Error clearing output file: clearing `" ++ job.output ++ "` failed: " ++
      IoError.isADirectory.message ++ "\n" ∧
    r.files = fs
  of_unread : (∀ l, fs.resolve .find job.output ≠ .ok (.directory l)) →
    ∀ e, (fs.emptied job.output).read job.input = .error e →
    r.exitCode = 1 ∧
    r.stdout = "Error processing file: reading `" ++ job.input ++ "` failed: " ++ e.message ++
      "\n" ∧
    r.files = fs.emptied job.output
  of_uncreated : (∀ l, fs.resolve .find job.output ≠ .ok (.directory l)) →
    ∀ content e, (fs.emptied job.output).read job.input = .ok content →
    (fs.emptied job.output).create job.output = .error e →
    r.exitCode = 1 ∧
    r.stdout = "Error processing file: creating `" ++ job.output ++ "` failed: " ++ e.message ++
      "\n" ∧
    r.files = fs.emptied job.output
  of_target : (∀ l, fs.resolve .find job.output ≠ .ok (.directory l)) →
    ∀ content l, (fs.emptied job.output).read job.input = .ok content →
    (fs.emptied job.output).target? job.output = some l →
    r.exitCode = 0 ∧
    r.stdout = "Calculation results written to " ++ job.output ++ "\n" ∧
    r.files.get? l = some (.file (transcribe content Tank.unlimited).sink.held) ∧
    r.files.read job.output = .ok (transcribe content Tank.unlimited).sink.held ∧
    (∀ l', l' ≠ l → r.files.get? l' = (fs.emptied job.output).get? l') ∧
    r.files.home = fs.home
  /-- What an earlier run left in the output does not outlive a run that fails. -/
  no_old_results : ∀ l old, fs.resolve .find job.output = .ok (.file l old) →
    r.exitCode ≠ 0 → r.files.read job.output = .ok []
  content_of_other : ∀ l content, fs.resolve .find job.input = .ok (.file l content) →
    (∀ old, fs.resolve .find job.output ≠ .ok (.file l old)) →
    (fs.emptied job.output).read job.input = .ok content
  /-- A job on one file finds it empty, and leaves it empty. -/
  of_same_file : ∀ l content, fs.resolve .find job.input = .ok (.file l content) →
    fs.resolve .find job.output = .ok (.file l content) →
    (fs.emptied job.output).read job.input = .ok [] ∧
    r.exitCode = 0 ∧ r.files.get? l = some (.file [])

/-- The line for a failure begins with what was being done, and with what. -/
lemma failure_line {words verb opening : String} (h : words ++ verb ++ " `" = opening)
    (path : String) (e : IoError) :
    words ++ (verb ++ " `" ++ path ++ "` failed: " ++ e.message) ++ "\n" =
      opening ++ path ++ "` failed: " ++ e.message ++ "\n" := by
  rw [← h]
  simp only [String.append_assoc]

/-! ## The cases -/

lemma home_emptied (fs : FileSystem) (path : String) : (fs.emptied path).home = fs.home := by
  unfold FileSystem.emptied
  split <;> rfl

lemma runJob_of_target (h : ∀ l, fs.resolve .find job.output ≠ .ok (.directory l))
    {content : Bytes} {l : Location}
    (hread : (fs.emptied job.output).read job.input = .ok content)
    (htarget : (fs.emptied job.output).target? job.output = some l) :
    runJob job fs = ⟨0, done job, "", (fs.emptied job.output).put l
      (.file (transcribe content Tank.unlimited).sink.held)⟩ := by
  obtain ⟨report, hreport⟩ := Job.exists_report content
  rw [runJob_of_not_directory h, Job.run_of_target hread htarget hreport]
  rfl

/-- A run that fails leaves the tree with an emptied output. -/
lemma files_runJob_of_ne_zero (h : ∀ l, fs.resolve .find job.output ≠ .ok (.directory l))
    (hexit : (runJob job fs).exitCode ≠ 0) :
    (runJob job fs).files = fs.emptied job.output := by
  cases hread : (fs.emptied job.output).read job.input with
  | error e =>
    rw [runJob_of_not_directory h, Job.run_of_unread hread]
    rfl
  | ok content =>
    rcases FileSystem.create_cases (fs.emptied job.output) job.output with
      ⟨e, hcreate⟩ | ⟨l, htarget⟩ | ⟨d, hcreate⟩
    · rw [runJob_of_not_directory h, Job.run_of_uncreated hread hcreate]
      rfl
    · rw [runJob_of_target h hread htarget] at hexit
      exact absurd rfl hexit
    · -- writing to a device may fail or not, and leaves the tree alone either way
      rw [runJob_of_not_directory h, files_ofJobRun, Job.files_run_of_device hread hcreate]

/-- A job on one file writes nothing into it. -/
lemma runJob_of_same_file {l : Location} {content : Bytes}
    (hinput : fs.resolve .find job.input = .ok (.file l content))
    (houtput : fs.resolve .find job.output = .ok (.file l content)) :
    runJob job fs = ⟨0, done job, "", fs.put l (.file [])⟩ := by
  have h : ∀ l, fs.resolve .find job.output ≠ .ok (.directory l) := by simp [houtput]
  have hread := FileSystem.read_emptied_of_same hinput houtput
  have hemptied := FileSystem.emptied_of_file houtput
  have htarget : (fs.emptied job.output).target? job.output = some l := by
    rw [hemptied]
    exact FileSystem.target?_put_target (FileSystem.target?_of_find houtput) []
  have hnothing : (transcribe [] Tank.unlimited).sink.held = [] := by
    rw [transcribe_unlimited_eq, lines_nil]
    rfl
  rw [runJob_of_target h hread htarget, hnothing, hemptied, FileSystem.put_put]

/-- **A run on two paths ends as what they lead to says,** whatever arguments gave the paths. -/
theorem run_outcome {arguments : List String}
    (h : Invocation.ofArguments arguments = .run job) (fs : FileSystem) :
    Outcome job fs (run arguments fs) := by
  have hrun : run arguments fs = runJob job fs := by rw [run, h]
  rw [hrun]
  constructor
  case of_directory =>
    intro l hl
    rw [runJob_of_directory hl]
    exact ⟨rfl, failure_line (by simp [Stage.verb]) job.output .isADirectory, rfl⟩
  case of_unread =>
    intro hne e hread
    rw [runJob_of_not_directory hne, Job.run_of_unread hread]
    exact ⟨rfl, failure_line (by simp [Stage.verb]) job.input e, rfl⟩
  case of_uncreated =>
    intro hne content e hread hcreate
    rw [runJob_of_not_directory hne, Job.run_of_uncreated hread hcreate]
    exact ⟨rfl, failure_line (by simp [Stage.verb]) job.output e, rfl⟩
  case of_target =>
    intro hne content l hread htarget
    rw [runJob_of_target hne hread htarget]
    obtain ⟨hget, hread', hothers, hhome⟩ := FileSystem.filled_put_target htarget _
    exact ⟨rfl, rfl, hget, hread', hothers, hhome.trans (home_emptied fs job.output)⟩
  case no_old_results =>
    intro l old hfile hexit
    have hne : ∀ l, fs.resolve .find job.output ≠ .ok (.directory l) := by simp [hfile]
    rw [files_runJob_of_ne_zero hne hexit, FileSystem.emptied_of_file hfile]
    exact FileSystem.read_put_target (FileSystem.target?_of_find hfile) []
  case content_of_other =>
    intro l content hinput hother
    exact FileSystem.read_emptied_of_ne hinput hother
  case of_same_file =>
    intro l content hinput houtput
    rw [runJob_of_same_file hinput houtput]
    exact ⟨FileSystem.read_emptied_of_same hinput houtput, rfl, FileSystem.get?_put_self _ _ _⟩

/-- A file that is also reached through a link is emptied by a job from the one path to the
other. -/
theorem run_outcome_linked :
    let fs := (FileSystem.fresh.put ["in", "work"] (.file [0x31, 0x2B, 0x31, 0x78])).put
      ["out", "work"] (.link "./in")
    Invocation.ofArguments ["in", "out"] = .run ⟨"in", "out"⟩ ∧
      (run ["in", "out"] fs).exitCode = 0 ∧
      (run ["in", "out"] fs).files.get? ["in", "work"] = some (.file []) := by
  intro fs
  have harguments : Invocation.ofArguments ["in", "out"] = .run ⟨"in", "out"⟩ := by
    decide +kernel
  have hinput : fs.resolve .find "in" =
      .ok (.file ["in", "work"] [0x31, 0x2B, 0x31, 0x78]) := rfl
  have houtput : fs.resolve .find "out" =
      .ok (.file ["in", "work"] [0x31, 0x2B, 0x31, 0x78]) := rfl
  obtain ⟨-, hexit, hfile⟩ :=
    (run_outcome harguments fs).of_same_file ["in", "work"] _ hinput houtput
  exact ⟨harguments, hexit, hfile⟩

end Reckoner.Program
