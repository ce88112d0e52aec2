/-
# The whole program

The program clears the output of its job and then runs the job.  It says on standard output how
that went, and its exit code is zero only if all went well.
-/
import Reckoner.Arguments
import Reckoner.Text.Plain

namespace Reckoner

/-- What the program leaves behind. -/
structure ProgramRun where
  exitCode : UInt8
  stdout : String
  stderr : String
  files : FileSystem
deriving DecidableEq, Repr

namespace Program

/-- How the program is called. -/
def synopsis : String := "<INPUT> <OUTPUT>"

/-- The line that answers a call with too few values. -/
def usage : String := "Usage: line_calc input.txt output.txt\n"

def help : String :=
  "Evaluates one `<int> <op> <int>` expression per line and writes `expression=result` lines\n" ++
  "\n" ++
  "Usage: line_calc " ++ synopsis ++ "\n" ++
  "\n" ++
  "Arguments:\n" ++
  "  <INPUT>   File with one expression per line\n" ++
  "  <OUTPUT>  Destination for the results, truncated before the run\n" ++
  "\n" ++
  "Options:\n" ++
  "  -h, --help     Print help\n" ++
  "  -V, --version  Print version\n"

def version : String := "line_calc 0.1.0\n"

def shown : Flag → String
  | .help => help
  | .version => version

/-- What can still be given behind a flag that was refused: both paths, or, when both are there
already, any of the values as one choice. -/
def remaining (complete : Bool) : String :=
  if complete then "<INPUT|OUTPUT|REST>" else synopsis

/-- The refusal of a value for a flag.  The value is shown without what would steer a
terminal. -/
def unexpectedValue (flag : Flag) (value : String) (complete : Bool) : String :=
  "error: unexpected value '" ++ Text.plain value ++ "' for '" ++ flag.long ++
  "' found; no more were expected\n" ++
  "\n" ++
  "Usage: line_calc " ++ flag.long ++ " " ++ remaining complete ++ "\n" ++
  "\n" ++
  "For more information, try '--help'.\n"

/-- The line that tells of an output that could not be cleared. -/
def notCleared (f : FileFault) : String := "Error clearing output file: " ++ f.message ++ "\n"

/-- The line that tells of a job that failed. -/
def notProcessed (f : FileFault) : String := "Error processing file: " ++ f.message ++ "\n"

/-- The line that tells of a job that went well. -/
def done (job : Job) : String := "Calculation results written to " ++ job.output ++ "\n"

/-- Clears the output of a job and runs the job. -/
def runJob (job : Job) (fs : FileSystem) : ProgramRun :=
  match fs.clear job.output with
  | (.error f, fs) => ⟨1, notCleared f, "", fs⟩
  | (.ok (), fs) =>
    let r := job.run fs
    match r.outcome with
    | .error f => ⟨1, notProcessed f, "", r.files⟩
    | .ok _ => ⟨0, done job, "", r.files⟩

def run (arguments : List String) (fs : FileSystem) : ProgramRun :=
  match Invocation.ofArguments arguments with
  | .inform flag => ⟨0, shown flag, "", fs⟩
  | .unexpectedValue flag value complete =>
    ⟨2, "", unexpectedValue flag value complete, fs⟩
  | .tooFewValues => ⟨1, usage, "", fs⟩
  | .run job => runJob job fs

end Program
end Reckoner
