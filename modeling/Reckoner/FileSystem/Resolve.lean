/-
# Where a path leads

A route is followed name by name.  `.` stays, `..` goes to the directory around, any other name
is looked up in the directory reached so far.  A symbolic link is followed by going on with the
route in the link, and then with the rest of the old one; at most forty links are followed for
one path.

A path can be followed to find what is there, or to create a file where nothing is.  The two
differ only at the last name: to create, it may be missing, and no slash may follow it.
-/
import Reckoner.FileSystem.Route
import Reckoner.FileSystem.Tree

namespace Reckoner

/-- What a path is followed for. -/
inductive Purpose where
  /-- To find what is there. -/
  | find
  /-- To write to what is there, or to create a file. -/
  | create
deriving DecidableEq, Repr

/-- What a path leads to. -/
inductive Place where
  | directory (location : Location)
  | file (location : Location) (content : Bytes)
  | device (device : Device)
  /-- A location where nothing is, in a directory that exists. -/
  | vacant (location : Location)
deriving DecidableEq, Repr

/-- Where following names comes to a stop if links are not followed. -/
inductive Stop where
  /-- At the end of the names. -/
  | arrived (place : Place)
  /-- At a link in the directory `location`, with `rest` as the names behind it. -/
  | link (location : Location) (target : String) (rest : List String)
  /-- At a name that leads nowhere. -/
  | failed (error : IoError)
deriving DecidableEq, Repr

namespace FileSystem

/-- How many links are followed for one path. -/
def maxLinks : Nat := 40

/-- Follows names from a directory up to the first link.  With `slashed`, the last name has to
be a directory. -/
def advance (fs : FileSystem) (purpose : Purpose) (slashed : Bool) :
    Location → List String → Stop
  | here, [] => .arrived (.directory here)
  | here, name :: rest =>
    if name = "." then advance fs purpose slashed here rest
    else if name = ".." then advance fs purpose slashed here.tail rest
    else if purpose = .create ∧ rest = [] ∧ slashed then .failed .isADirectory
    else if Route.maxNameLength < name.utf8ByteSize then .failed .nameTooLong
    else match fs.get? (name :: here) with
      | some .directory => advance fs purpose slashed (name :: here) rest
      | some (.link target) => .link here target rest
      | some (.file content) =>
        if rest = [] ∧ !slashed then .arrived (.file (name :: here) content)
        else .failed .notADirectory
      | some (.device d) =>
        if rest = [] ∧ !slashed then .arrived (.device d) else .failed .notADirectory
      | none =>
        if purpose = .create ∧ rest = [] then .arrived (.vacant (name :: here))
        else .failed .notFound

/-- Follows names from a directory to their end, with a number of links left to follow. -/
def follow (fs : FileSystem) (purpose : Purpose) (links : Nat) (slashed : Bool)
    (here : Location) (names : List String) : Except IoError Place :=
  match fs.advance purpose slashed here names, links with
  | .arrived place, _ => .ok place
  | .failed e, _ => .error e
  | .link .., 0 => .error .tooManyLinks
  | .link location target rest, links + 1 =>
    let route := Route.ofString target
    fs.follow purpose links (if rest = [] then slashed || route.slashed else slashed)
      (if route.absolute then [] else location) (route.names ++ rest)

def start (fs : FileSystem) (route : Route) : Location :=
  if route.absolute then [] else fs.home

/-- What a path leads to. -/
def resolve (fs : FileSystem) (purpose : Purpose) (path : String) : Except IoError Place :=
  (Route.ofPath? path).bind fun route =>
    fs.follow purpose maxLinks route.slashed (fs.start route) route.names

end FileSystem
end Reckoner
