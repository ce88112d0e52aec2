/-
# Evaluating one file into another

A job names an input and an output.  To clear it empties an output that exists.  To run it reads
the whole input, then empties or creates the output, then writes the results through a buffer.
The input is read before the output is touched, so a job whose input cannot be read changes
nothing, and a file may be evaluated into itself.
-/
import Reckoner.FileSystem.Access
import Reckoner.Sink.Buffered
import Reckoner.Transcript

namespace Reckoner

/-- What a job was doing with a file. -/
inductive Stage where
  | reading
  | creating
  | writing
  | clearing
deriving DecidableEq, Repr

namespace Stage

/-- The word for the stage in a message. -/
def verb : Stage → String
  | reading => "reading"
  | creating => "creating"
  | writing => "writing"
  | clearing => "clearing"

def code : Stage → String
  | reading => "line_calc::read_input"
  | creating => "line_calc::create_output"
  | writing => "line_calc::write_output"
  | clearing => "line_calc::clear_output"

def help : Stage → Option String
  | clearing => some "check that the output path is a writable file"
  | reading | creating | writing => none

end Stage

/-- The failure of a job at one of its files. -/
structure FileFault where
  stage : Stage
  path : String
  cause : IoError
deriving DecidableEq, Repr

namespace FileFault

def message (f : FileFault) : String :=
  f.stage.verb ++ " `" ++ f.path ++ "` failed: " ++ f.cause.message

def diagnostic (f : FileFault) : Diagnostic :=
  ⟨f.message, f.stage.code, f.stage.help, some f.cause.message, []⟩

end FileFault

/-- Empties what a path leads to.  A path that leads nowhere is left alone. -/
def FileSystem.clear (fs : FileSystem) (path : String) : Except FileFault Unit × FileSystem :=
  if fs.pathExists path then
    match fs.create path with
    | .ok handle => (.ok (), handle.files)
    | .error e => (.error ⟨.clearing, path, e⟩, fs)
  else (.ok (), fs)

/-- An input path and an output path. -/
structure Job where
  /-- The path of the file with one expression per line. -/
  input : String
  /-- The path of the file for the results. -/
  output : String
deriving DecidableEq, Repr

/-- What a job leaves behind. -/
structure JobRun where
  files : FileSystem
  events : List Event
  /-- The counts, or the failure that ended the job. -/
  outcome : Except FileFault Report

namespace Job

def run (job : Job) (fs : FileSystem) : JobRun :=
  let began := Event.began job.input job.output
  match fs.read job.input with
  | .error e => ⟨fs, [began], .error ⟨.reading, job.input, e⟩⟩
  | .ok content =>
    let inputRead := Event.inputRead content.length
    match fs.create job.output with
    | .error e => ⟨fs, [began, inputRead], .error ⟨.creating, job.output, e⟩⟩
    | .ok handle =>
      let t := transcribe content (Buffered.of handle)
      let files := t.sink.close.files
      match t.outcome with
      | .error e =>
        ⟨files, began :: inputRead :: t.events, .error ⟨.writing, job.output, e⟩⟩
      | .ok report =>
        ⟨files, began :: inputRead :: t.events ++ [.finished report], .ok report⟩

end Job
end Reckoner
