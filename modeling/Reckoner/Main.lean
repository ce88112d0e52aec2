/-
# The command

Runs the program on the files of this machine.  Here is only how the system is asked; what is
asked, and in which order, is `Command.run`.
-/
import Reckoner.Command

namespace Reckoner

/-- The number and the words by which the system names a failure. -/
def systemFailure? : IO.Error → Option (UInt32 × String)
  | .noFileOrDirectory _ code words | .invalidArgument _ code words
  | .inappropriateType _ code words | .resourceExhausted _ code words
  | .noSuchThing _ code words | .permissionDenied _ code words | .otherError code words
  | .illegalOperation code words | .unsatisfiedConstraints code words
  | .unsupportedOperation code words | .hardwareFault code words
  | .resourceBusy code words => some (code, words)
  | _ => none

/-- The failure behind an error of the system. -/
def IoError.ofSystem (e : IO.Error) : IoError :=
  match systemFailure? e with
  | some (2, _) => .notFound
  | some (12, _) => .outOfMemory
  | some (20, _) => .notADirectory
  | some (21, _) => .isADirectory
  | some (28, _) => .storageFull
  | some (36, _) => .nameTooLong
  | some (40, _) => .tooManyLinks
  | some (code, words) => .other (words.capitalize ++ " (os error " ++ toString code ++ ")")
  | none => .other (toString e)

/-- What an action comes to, with the failure told apart. -/
def outcome {α : Type} (action : IO α) : IO (Except IoError α) :=
  return (← action.toBaseIO).mapError IoError.ofSystem

instance : Machine IO IO.FS.Handle where
  pathExists path := return (← (IO.FS.realPath path).toBaseIO).isOk
  read path := outcome do
    let file ← IO.FS.Handle.mk path .read
    return (← file.readBinToEnd).data.toList
  create path := outcome (IO.FS.Handle.mk path .write)
  -- the portion has left the program before the next one is tried
  write bytes file := outcome do
    file.write ⟨bytes.toArray⟩
    file.flush

end Reckoner

/-- The entry point: the arguments are those behind the name of the command. -/
def main (arguments : List String) : IO UInt32 := do
  let answer ← Reckoner.Command.run (m := IO) arguments
  IO.print answer.stdout
  IO.eprint answer.stderr
  return answer.exitCode.toUInt32
