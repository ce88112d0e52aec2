/-
# The program on a tree of files

The program asks a machine for everything about files.  On a tree of files its steps come to what
`FileSystem.clear`, `Job.run` and `Program.run` make of the tree, so that what is proved of these
holds of the program that is run: `Command.onTree_run`.

The one step that is not the same word for word is the writing.  A job writes through a buffer to
the handle itself; the program first collects what the buffer passes on, and then writes these
portions one by one.  A handle takes everything or refuses everything, and in both cases the two
come to the same: `Handle.writesAlike_of_create`.
-/
import Reckoner.Command
import Reckoner.Proofs.Refusal

namespace Reckoner

/-! ## The portions that are handed on -/

/-- The bytes in an outbox, all portions together. -/
def Outbox.Holds (held : Bytes) (o : Outbox) : Prop := o.portions.flatten = held

lemma Outbox.takesAll_holds : Sink.TakesAll Outbox.Holds := by
  have htakes : Sink.Takes Outbox.Holds List.length Outbox.write := by
    rintro _ o rfl bytes
    refine ⟨⟨o.portions ++ [bytes]⟩, rfl, ?_⟩
    rw [Outbox.Holds, List.flatten_append, List.flatten_singleton]
  exact ⟨htakes, htakes.writeOffering⟩

/-- However the buffer cuts them, the portions are the results of the input. -/
lemma flatten_handedOn (input : Bytes) :
    (handedOn input).flatten = (transcribe input Tank.unlimited).sink.held := by
  have hempty : Outbox.empty.Holds [] := rfl
  exact (transcribe_of_takesAll Outbox.takesAll_holds (fun _ => rfl) hempty input).2.2

section AnySink

variable {σ : Type} [Sink σ] {s : σ}

/-- Of several portions a sink that refuses takes none, and fails unless they are all empty. -/
lemma Sink.Refuses.writeEach_eq {e : IoError} (h : Refuses e s) (portions : List Bytes) :
    writeEach portions s = (if portions.flatten = [] then .ok () else .error e, s) := by
  induction portions with
  | nil => rfl
  | cons portion portions ih =>
    rw [writeEach, h.writeAll, List.flatten_cons]
    by_cases hempty : portion = []
    · rw [if_pos hempty, hempty, List.nil_append]
      exact ih
    · rw [if_neg hempty, if_neg (List.append_ne_nil_of_left_ne_nil hempty _)]

/-- The result and the sink of a run through a buffer in front of `s` are those of writing the
portions to `s`. -/
def WritesAlike (input : Bytes) (s : σ) : Prop :=
  Sink.writeEach (handedOn input) s =
    ((transcribe input (Buffered.of s)).outcome.map fun _ => (),
      (transcribe input (Buffered.of s)).sink.close)

/-- A sink that is known by what it has taken does not care who writes to it. -/
lemma writesAlike_of_takesAll {Has : Bytes → σ → Prop} (h : Sink.TakesAll Has)
    (hflush : ∀ {held s}, Has held s → Sink.flush s = (.ok (), s))
    (hunique : ∀ {held s s'}, Has held s → Has held s' → s = s') (hs : Has [] s)
    (input : Bytes) : WritesAlike input s := by
  obtain ⟨s', hwrite, hs'⟩ := h.writeEach hs (handedOn input)
  obtain ⟨houtcome, -, hclose⟩ := transcribe_of_takesAll h hflush hs input
  obtain ⟨report, hreport⟩ := Job.exists_report input
  rw [List.nil_append, flatten_handedOn] at hs'
  rw [WritesAlike, hwrite, houtcome, hreport, hunique hs' hclose]
  rfl

end AnySink

/-! ## Writing to a handle -/

namespace Handle

variable {fs : FileSystem}

lemma writesAlike_null (fs : FileSystem) (input : Bytes) :
    WritesAlike input (⟨fs, .device .null⟩ : Handle) := by
  -- all that is written is lost, so that it is the same handle before and after
  have htakes : Sink.Takes (fun _ h => h = ⟨fs, .device .null⟩) List.length write := by
    rintro _ h rfl bytes
    exact ⟨_, rfl, rfl⟩
  exact writesAlike_of_takesAll ⟨htakes, htakes.writeOffering⟩ (fun _ => flush_eq _)
    (fun hs hs' => hs.trans hs'.symm) rfl input

lemma writesAlike_full (fs : FileSystem) (input : Bytes) :
    WritesAlike input (⟨fs, .device .full⟩ : Handle) := by
  have hrefuses := refuses_full fs
  have hclose := transcribe_keeps (keeps_device fs .full) rfl input
  obtain ⟨houtcome, -⟩ := transcribe_of_refuses hrefuses input
  obtain ⟨report, hreport⟩ := Job.exists_report input
  rw [WritesAlike, hrefuses.writeEach_eq, flatten_handedOn, houtcome, hclose, hreport]
  split_ifs <;> rfl

lemma writesAlike_of_create {path : String} {handle : Handle} (h : fs.create path = .ok handle)
    (input : Bytes) : WritesAlike input handle := by
  rcases FileSystem.create_cases fs path with ⟨e, hcreate⟩ | ⟨l, htarget⟩ | ⟨d, hcreate⟩
  · rw [h] at hcreate
    cases hcreate
  · rw [FileSystem.create_of_target? htarget, Except.ok.injEq] at h
    have hopened : OnFile fs l [] handle := h.symm
    exact writesAlike_of_takesAll takesAll_onFile (fun _ => flush_eq _)
      (fun hs hs' => hs.trans hs'.symm) hopened input
  · rw [h, Except.ok.injEq] at hcreate
    subst hcreate
    cases d with
    | null => exact writesAlike_null fs input
    | full => exact writesAlike_full fs input

/-- A handle goes on writing to what it was opened on. -/
lemma keeps_outlet (outlet : Outlet) : Sink.Keeps fun h : Handle => h.outlet = outlet := by
  refine keeps_of_write fun bytes handle houtlet => ?_
  unfold write
  split <;> exact houtlet

end Handle

/-! ## The steps of the program -/

/-- What a run of the program answers. -/
def ProgramRun.answer (r : ProgramRun) : Answer := ⟨r.exitCode, r.stdout, r.stderr⟩

namespace Command

variable {α β : Type} {fs fs' : FileSystem} {path : String}

/-- What an action gives on the tree `fs`, and the tree after it. -/
def onTree (action : StateM FileSystem α) (fs : FileSystem) : α × FileSystem := action.run fs

lemma onTree_bind (action : StateM FileSystem α) (next : α → StateM FileSystem β)
    (fs : FileSystem) :
    onTree (action >>= next) fs = onTree (next (onTree action fs).1) (onTree action fs).2 := rfl

section Attempts

variable {action : ExceptT FileFault (StateM FileSystem) α}
  {next : α → ExceptT FileFault (StateM FileSystem) β}

lemma onTree_bind_of_error {f : FileFault} (h : onTree action.run fs = (.error f, fs')) :
    onTree (action >>= next).run fs = (.error f, fs') := by
  rw [ExceptT.run_bind, onTree_bind, h]
  rfl

lemma onTree_bind_of_ok {a : α} (h : onTree action.run fs = (.ok a, fs')) :
    onTree (action >>= next).run fs = onTree (next a).run fs' := by
  rw [ExceptT.run_bind, onTree_bind, h]

end Attempts

/-- A failure is told of with its stage and path. -/
lemma onTree_attempt {action : StateM FileSystem (Except IoError α)} {result : Except IoError α}
    (h : onTree action fs = (result, fs')) (stage : Stage) (path : String) :
    onTree (attempt stage path action).run fs =
      (result.mapError fun e => ⟨stage, path, e⟩, fs') := by
  rw [attempt, ExceptT.run_mk, onTree_bind, h]
  rfl

lemma onTree_read {result : Except IoError Bytes} (h : fs.read path = result) :
    onTree (Machine.read path) fs = (result, fs) := by
  simp only [onTree, StateT.run, Machine.read, h]

lemma onTree_create_of_error {e : IoError} (h : fs.create path = .error e) :
    onTree (Machine.create path) fs = (.error e, fs) := by
  simp only [onTree, StateT.run, Machine.create, h]

lemma onTree_create_of_ok {handle : Handle} (h : fs.create path = .ok handle) :
    onTree (Machine.create path) fs = (.ok handle.outlet, handle.files) := by
  simp only [onTree, StateT.run, Machine.create, h]

lemma onTree_write (portion : Bytes) (handle : Handle) :
    onTree (Machine.write portion handle.outlet) handle.files =
      ((Sink.writeAll portion handle).1, (Sink.writeAll portion handle).2.files) := rfl

lemma onTree_writeEach (portions : List Bytes) (handle : Handle) :
    onTree (writeEach handle.outlet portions) handle.files =
      ((Sink.writeEach portions handle).1, (Sink.writeEach portions handle).2.files) := by
  induction portions generalizing handle with
  | nil => rfl
  | cons portion portions ih =>
    have houtlet := (Handle.keeps_outlet handle.outlet).writeAll portion rfl
    rw [writeEach, onTree_bind, onTree_write, Sink.writeEach]
    rcases hwrite : Sink.writeAll portion handle with ⟨result, handle'⟩
    rw [hwrite] at houtlet
    cases result with
    | error e => rfl
    | ok done =>
      -- the rest is written to the same outlet, in the tree that there is now
      rw [← houtlet]
      exact ih handle'

/-- To clear a path is the same on a tree. -/
lemma onTree_clear (path : String) (fs : FileSystem) :
    onTree (clear path).run fs = fs.clear path := by
  have hasked : onTree (clear path).run fs = onTree (if fs.pathExists path then
      discard (attempt .clearing path (Machine.create path)) else pure () :
        ExceptT FileFault (StateM FileSystem) Unit).run fs := rfl
  rw [hasked, FileSystem.clear]
  split_ifs with hexists
  · cases hcreate : fs.create path with
    | error e =>
      exact onTree_bind_of_error (onTree_attempt (onTree_create_of_error hcreate) _ _)
    | ok handle => exact onTree_bind_of_ok (onTree_attempt (onTree_create_of_ok hcreate) _ _)
  · rfl

/-- A job comes to the same end on a tree.  Its counts and events are not asked for. -/
lemma onTree_runJob (job : Job) (fs : FileSystem) :
    onTree (runJob job).run fs =
      ((job.run fs).outcome.map fun _ => (), (job.run fs).files) := by
  rw [runJob]
  cases hread : fs.read job.input with
  | error e =>
    rw [Job.run_of_unread hread]
    exact onTree_bind_of_error (onTree_attempt (onTree_read hread) _ _)
  | ok content =>
    rw [onTree_bind_of_ok (onTree_attempt (onTree_read hread) _ _)]
    cases hcreate : fs.create job.output with
    | error e =>
      rw [Job.run_of_uncreated hread hcreate]
      exact onTree_bind_of_error (onTree_attempt (onTree_create_of_error hcreate) _ _)
    | ok handle =>
      have hwrites := Handle.writesAlike_of_create hcreate content
      rw [onTree_bind_of_ok (onTree_attempt (onTree_create_of_ok hcreate) _ _),
        onTree_attempt (onTree_writeEach _ handle), hwrites]
      cases houtcome : (transcribe content (Buffered.of handle)).outcome with
      | error e =>
        rw [Job.run_of_unwritten hread hcreate houtcome]
        rfl
      | ok report =>
        rw [Job.run_of_written hread hcreate houtcome]
        rfl

/-- **On a tree of files the program answers what `Program.run` says, and leaves the same tree
behind.** -/
theorem onTree_run (arguments : List String) (fs : FileSystem) :
    onTree (run arguments) fs =
      ((Program.run arguments fs).answer, (Program.run arguments fs).files) := by
  unfold run Program.run
  cases Invocation.ofArguments arguments with
  | inform flag => rfl
  | unexpectedValue flag value complete => rfl
  | tooFewValues => rfl
  | run job =>
    simp only [Program.runJob]
    rw [onTree_bind, onTree_clear]
    rcases fs.clear job.output with ⟨cleared, emptied⟩
    cases cleared with
    | error f => rfl
    | ok done =>
      simp only
      rw [onTree_bind, onTree_runJob]
      cases (job.run emptied).outcome with
      | error f => rfl
      | ok report => rfl

end Command
end Reckoner
