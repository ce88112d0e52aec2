/-
# The command line

The first two values are the input and the output; more are ignored.  Flags are recognised up to
the first `--` and up to the first value too many, and the first one decides; everything else
that begins with a hyphen is a value.
-/
import Reckoner.Job

namespace Reckoner

inductive Flag where
  | help
  | version
deriving DecidableEq, Repr

def Flag.long : Flag → String
  | help => "--help"
  | version => "--version"

/-- What one argument looks like. -/
inductive ArgumentForm where
  | flag (flag : Flag)
  /-- A long flag with a value behind an equals sign. -/
  | flagWithValue (flag : Flag) (value : String)
  /-- The two hyphens that end the flags. -/
  | separator
  | value
deriving DecidableEq, Repr

namespace ArgumentForm

/-- The flag that a letter denotes. -/
def shortFlag? (c : Char) : Option Flag :=
  if c = 'h' then some .help else if c = 'V' then some .version else none

/-- The value that an argument gives to a long flag. -/
def valueFor? (flag : Flag) (argument : String) : Option String :=
  let opening := (flag.long ++ "=").toList
  if opening.isPrefixOf argument.toList then
    some (String.ofList (argument.toList.drop opening.length))
  else none

/-- Letters of flags behind one hyphen count as the first of them; with any other letter among
them they are a value. -/
def ofCluster : List Char → ArgumentForm
  | '-' :: c :: rest =>
    match shortFlag? c with
    | some f => if rest.all fun c => (shortFlag? c).isSome then flag f else value
    | none => value
  | _ => value

def of (argument : String) : ArgumentForm :=
  if argument = "--" then separator
  else if argument = Flag.long .help then flag .help
  else if argument = Flag.long .version then flag .version
  else match valueFor? .help argument, valueFor? .version argument with
    | some v, _ => flagWithValue .help v
    | none, some v => flagWithValue .version v
    | none, none => ofCluster argument.toList

end ArgumentForm

/-- What the command line asks for. -/
inductive Invocation where
  /-- To show what a flag shows. -/
  | inform (flag : Flag)
  /-- Nothing: a flag was given a value, before or after both paths were complete. -/
  | unexpectedValue (flag : Flag) (value : String) (complete : Bool)
  /-- Nothing: there are fewer than two values. -/
  | tooFewValues
  /-- To run a job. -/
  | run (job : Job)
deriving DecidableEq, Repr

namespace Invocation

/-- What a list of values asks for. -/
def ofValues : List String → Invocation
  | input :: output :: _ => run ⟨input, output⟩
  | _ => tooFewValues

/-- What the rest of a command line asks for, behind at most two values. -/
def scan (values : List String) : List String → Invocation
  | [] => ofValues values
  | argument :: rest =>
    match ArgumentForm.of argument with
    | .flag f => inform f
    | .flagWithValue f v => unexpectedValue f v (2 ≤ values.length)
    | .separator => ofValues (values ++ rest)
    | .value => if values.length < 2 then scan (values ++ [argument]) rest else ofValues values

/-- What a command line asks for. -/
def ofArguments (arguments : List String) : Invocation := scan [] arguments

end Invocation
end Reckoner
