/-
# Running the program again

A second run right after the first says the same and changes nothing: `Program.run_again`.  It
does not start from the same tree, since the output may have been made by the first run, or hold
its results.  But clearing it leads back to a tree in which the job runs as it did before
(`Program.run_emptied_again`), because the input is read as before in it: the output that was made
is not the input, and if the output was there already, it had been emptied before as well.
-/
import Reckoner.Proofs.WholeProgram

namespace Reckoner

namespace FileSystem

variable {fs : FileSystem} {l : Location} {path : String}

/-- To empty the file of a path that has been emptied makes the file or does nothing. -/
lemma put_target_of_emptied (h : (fs.emptied path).target? path = some l) :
    (fs.emptied path).get? l = none ∨
      (fs.emptied path).put l (.file []) = fs.emptied path := by
  rcases target?_eq_some_iff.mp h with ⟨old, hfile⟩ | hvacant
  · right
    have hempty := content_of_emptied (resolve_find_of_create hfile (by simp))
    subst hempty
    exact put_of_get? (get?_of_resolve_file hfile)
  · exact .inl (get?_of_resolve_vacant hvacant)

/-- A file that was made is no file that could be read before. -/
lemma read_put_of_get?_eq_none (hnone : fs.get? l = none) {old : Bytes}
    (h : fs.read path = .ok old) (content : Bytes) :
    (fs.put l (.file content)).read path = .ok old := by
  refine read_put_of_ne (.inl hnone) h ?_ content
  intro c hfile
  rw [get?_of_resolve_file hfile] at hnone
  cases hnone

end FileSystem

namespace Program

variable {job : Job} {fs : FileSystem}

/-- The job runs in the tree where its output has been made as in the tree where it had not. -/
lemma run_put_target {content : Bytes} {l : Location}
    (hread : (fs.emptied job.output).read job.input = .ok content)
    (htarget : (fs.emptied job.output).target? job.output = some l) :
    job.run ((fs.emptied job.output).put l (.file [])) = job.run (fs.emptied job.output) := by
  rcases FileSystem.put_target_of_emptied htarget with hnone | hsame
  · obtain ⟨report, hreport⟩ := Job.exists_report content
    have hread' := FileSystem.read_put_of_get?_eq_none hnone hread []
    have htarget' := FileSystem.target?_put_target htarget []
    rw [Job.run_of_target hread' htarget' hreport, Job.run_of_target hread htarget hreport,
      FileSystem.put_put]
  · rw [hsame]

/-- After a run of the job, with its output emptied again, the output is still no directory, and
the job runs as it did. -/
lemma run_emptied_again (h : ∀ l, fs.resolve .find job.output ≠ .ok (.directory l)) :
    let after := (job.run (fs.emptied job.output)).files
    (∀ l, after.resolve .find job.output ≠ .ok (.directory l)) ∧
      job.run (after.emptied job.output) = job.run (fs.emptied job.output) := by
  intro after
  -- a run that has changed nothing starts again from the same tree
  have hsame (hafter : after = fs.emptied job.output) :
      (∀ l, after.resolve .find job.output ≠ .ok (.directory l)) ∧
        job.run (after.emptied job.output) = job.run (fs.emptied job.output) := by
    rw [hafter, FileSystem.emptied_emptied]
    exact ⟨FileSystem.not_directory_emptied h, rfl⟩
  cases hread : (fs.emptied job.output).read job.input with
  | error e => exact hsame (congrArg JobRun.files (Job.run_of_unread hread))
  | ok content =>
    rcases FileSystem.create_cases (fs.emptied job.output) job.output with
      ⟨e, hcreate⟩ | ⟨l, htarget⟩ | ⟨d, hcreate⟩
    · exact hsame (congrArg JobRun.files (Job.run_of_uncreated hread hcreate))
    · obtain ⟨report, hreport⟩ := Job.exists_report content
      have hafter : after = (fs.emptied job.output).put l
          (.file (transcribe content Tank.unlimited).sink.held) :=
        congrArg JobRun.files (Job.run_of_target hread htarget hreport)
      rw [hafter, FileSystem.emptied_put_target htarget]
      refine ⟨fun l' hl' => ?_, run_put_target hread htarget⟩
      rw [FileSystem.resolve_put_target htarget _ .find] at hl'
      cases hl'
    · exact hsame (Job.files_run_of_device hread hcreate)

lemma runJob_again (job : Job) (fs : FileSystem) :
    runJob job (runJob job fs).files = runJob job fs := by
  by_cases h : ∃ l, fs.resolve .find job.output = .ok (.directory l)
  · obtain ⟨l, hl⟩ := h
    have hfirst := runJob_of_directory hl
    rw [congrArg ProgramRun.files hfirst]
  · have hne : ∀ l, fs.resolve .find job.output ≠ .ok (.directory l) := fun l hl => h ⟨l, hl⟩
    obtain ⟨hafter, hrun⟩ := run_emptied_again hne
    rw [runJob_of_not_directory hne, files_ofJobRun, runJob_of_not_directory hafter, hrun]

/-- **A second run right after the first does the same and changes nothing more.**  So it is for
every two paths, whatever they lead to, and for every command line. -/
theorem run_again (fs : FileSystem) :
    (∀ job, runJob job (runJob job fs).files = runJob job fs) ∧
    ∀ arguments, run arguments (run arguments fs).files = run arguments fs := by
  refine ⟨fun job => runJob_again job fs, fun arguments => ?_⟩
  unfold run
  cases Invocation.ofArguments arguments with
  | inform flag => rfl
  | unexpectedValue flag value complete => rfl
  | tooFewValues => rfl
  | run job => exact runJob_again job fs

end Program
end Reckoner
