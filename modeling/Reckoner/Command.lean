/-
# The program on a machine

The steps of a run of the program, with everything about files asked of a machine.  On a tree of
files they are the steps of `FileSystem.clear`, `Job.run` and `Program.run`: see
`Command.onTree_run`.

What a machine is given to write are the portions that a run of `transcribe` hands on through its
buffer.  So the results reach a file in the same portions on every machine, and the first portion
that is refused is the last that is tried.
-/
import Reckoner.Machine
import Reckoner.Program
import Reckoner.Sink.Outbox

namespace Reckoner

/-- The portions in which the results of an input are passed on. -/
def handedOn (input : Bytes) : List Bytes :=
  (transcribe input (Buffered.of Outbox.empty)).sink.close.portions

/-- What the program answers to a command line. -/
structure Answer where
  exitCode : UInt8
  stdout : String
  stderr : String
deriving DecidableEq, Repr

namespace Command

variable {m : Type → Type} [Monad m] {η : Type} [Machine m η]

/-- A failure of `action` is one at this stage and path. -/
def attempt {α : Type} (stage : Stage) (path : String) (action : m (Except IoError α)) :
    ExceptT FileFault m α :=
  ExceptT.mk do return (← action).mapError fun e => ⟨stage, path, e⟩

/-- Writes portions to an open file, up to the first that is refused. -/
def writeEach (file : η) : List Bytes → m (Except IoError Unit)
  | [] => return .ok ()
  | portion :: portions => do
    match ← Machine.write portion file with
    | .error e => return .error e
    | .ok () => writeEach file portions

/-- Empties the file at a path, if there is one. -/
def clear (path : String) : ExceptT FileFault m Unit := do
  if ← (Machine.pathExists path : m Bool) then
    discard (attempt .clearing path (Machine.create path : m (Except IoError η)))

/-- Evaluates one file into another. -/
def runJob (job : Job) : ExceptT FileFault m Unit := do
  let content ← attempt .reading job.input (Machine.read job.input : m (Except IoError Bytes))
  let file ← attempt .creating job.output (Machine.create job.output : m (Except IoError η))
  attempt .writing job.output (writeEach file (handedOn content))

/-- Does what a command line asks for. -/
def run (arguments : List String) : m Answer := do
  match Invocation.ofArguments arguments with
  | .inform flag => return ⟨0, Program.shown flag, ""⟩
  | .unexpectedValue flag value complete =>
    return ⟨2, "", Program.unexpectedValue flag value complete⟩
  | .tooFewValues => return ⟨1, Program.usage, ""⟩
  | .run job =>
    match ← (clear job.output).run with
    | .error f => return ⟨1, Program.notCleared f, ""⟩
    | .ok () =>
      match ← (runJob job).run with
      | .error f => return ⟨1, Program.notProcessed f, ""⟩
      | .ok () => return ⟨0, Program.done job, ""⟩

end Command
end Reckoner
