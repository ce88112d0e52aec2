/-
# Laying out a tree, and listing it

Files, directories and links are put into a tree by path, and the tree below the current
directory is listed by path again.
-/
import Reckoner.FileSystem.Access

namespace Reckoner.FileSystem

/-- Gives the file at a path a content, and creates it if nothing is there. -/
def writeFile (fs : FileSystem) (path : String) (content : Bytes) : Except IoError FileSystem :=
  match fs.create path with
  | .error e => .error e
  | .ok ⟨files, .file location⟩ => .ok (files.put location (.file content))
  | .ok ⟨files, .device _⟩ => .ok files

/-- Makes the directories that are missing on a way that has been followed through `made`. -/
def makeMissing (fs : FileSystem) (origin : Location) (made : List String) :
    List String → Except IoError FileSystem
  | [] => .ok fs
  | name :: rest =>
    match fs.follow .create maxLinks false origin (made ++ [name]) with
    | .error e => .error e
    | .ok (.directory _) => fs.makeMissing origin (made ++ [name]) rest
    | .ok (.vacant location) =>
      (fs.put location .directory).makeMissing origin (made ++ [name]) rest
    | .ok (.file ..) | .ok (.device _) => .error .notADirectory

/-- Makes a directory, and those that are missing on the way to it. -/
def makeDirectory (fs : FileSystem) (path : String) : Except IoError FileSystem :=
  (Route.ofPath? path).bind fun route => fs.makeMissing (fs.start route) [] route.names

/-- The location that the last name of a path stands for, itself not followed. -/
def locate (fs : FileSystem) (path : String) : Except IoError Location :=
  (Route.ofPath? path).bind fun route =>
    match route.names.getLast? with
    | none | some "." | some ".." => .error .isADirectory
    | some name =>
      match fs.follow .find maxLinks true (fs.start route) route.names.dropLast with
      | .error e => .error e
      | .ok (.directory location) =>
        if Route.maxNameLength < name.utf8ByteSize then .error .nameTooLong
        else .ok (name :: location)
      | .ok _ => .error .notADirectory

/-- Makes a symbolic link where nothing is yet. -/
def makeLink (fs : FileSystem) (path target : String) : Except IoError FileSystem :=
  match Route.ofPath? target, fs.locate path with
  | .error e, _ | _, .error e => .error e
  | .ok _, .ok location =>
    match fs.get? location with
    | none => .ok (fs.put location (.link target))
    | some _ => .error (.other "File exists (os error 17)")

/-- Removes what stands at a path, with everything below it.  A link is not followed. -/
def remove (fs : FileSystem) (path : String) : Except IoError FileSystem :=
  (fs.locate path).map fun location =>
    { fs with entries := fs.entries.filter fun (l, _) => !location.isSuffixOf l }

/-- The entries below the current directory, with their paths. -/
def listing (fs : FileSystem) : List (String × Entry) :=
  fs.entries.filterMap fun (l, e) =>
    if fs.home.isSuffixOf l ∧ l ≠ fs.home then
      some ("/".intercalate (l.take (l.length - fs.home.length)).reverse, e)
    else none

end Reckoner.FileSystem
