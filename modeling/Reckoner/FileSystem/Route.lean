/-
# Paths

A path is a text.  Taken apart at its slashes it is a route: where to start, which names to
follow, and whether the last of them has to be a directory.
-/
import Reckoner.IoError
import Reckoner.Pieces

namespace Reckoner

/-- A path taken apart. -/
structure Route where
  /-- The route starts at the root, and not at the current directory. -/
  absolute : Bool
  /-- The names on the way, `.` and `..` among them. -/
  names : List String
  /-- A slash follows the last name. -/
  slashed : Bool
deriving DecidableEq, Repr

namespace Route

/-- Takes a path apart.  Several slashes in a row count as one. -/
def ofString (path : String) : Route where
  absolute := path.toList.head? = some '/'
  names := ((pieces (· == '/') path.toList).filter (· ≠ [])).map String.ofList
  slashed := path.toList.getLast? = some '/'

def maxPathLength : Nat := 4095

def maxNameLength : Nat := 255

/-- Takes a path apart that was handed in from outside, unless no path may look like that. -/
def ofPath? (path : String) : Except IoError Route :=
  if path.toList.contains '\x00' then .error .nulInPath
  else if path = "" then .error .notFound
  else if maxPathLength < path.utf8ByteSize then .error .nameTooLong
  else .ok (ofString path)

end Route
end Reckoner
