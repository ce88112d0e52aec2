/-
# Reading and writing files

A file is read as a whole.  To write to a path empties the file there, or creates it, and gives
a handle; what is written to the handle is added at the end of the file.
-/
import Reckoner.FileSystem.Resolve
import Reckoner.Sink

namespace Reckoner

/-- What a handle writes to. -/
inductive Outlet where
  | file (location : Location)
  | device (device : Device)
deriving DecidableEq, Repr

/-- A tree, with something in it open for writing. -/
structure Handle where
  files : FileSystem
  outlet : Outlet
deriving DecidableEq, Repr

namespace FileSystem

def pathExists (fs : FileSystem) (path : String) : Bool := (fs.resolve .find path).isOk

/-- The whole content behind a path. -/
def read (fs : FileSystem) (path : String) : Except IoError Bytes :=
  match fs.resolve .find path with
  | .error e => .error e
  | .ok (.file _ content) => .ok content
  | .ok (.device .null) => .ok []
  | .ok (.device .full) => .error .outOfMemory
  | .ok (.directory _) => .error .isADirectory
  | .ok (.vacant _) => .error .notFound

/-- Opens a path for writing: the file there is emptied, or created if nothing is there. -/
def create (fs : FileSystem) (path : String) : Except IoError Handle :=
  match fs.resolve .create path with
  | .error e => .error e
  | .ok (.file location _) | .ok (.vacant location) =>
    .ok ⟨fs.put location (.file []), .file location⟩
  | .ok (.device d) => .ok ⟨fs, .device d⟩
  | .ok (.directory _) => .error .isADirectory

/-- Adds bytes at the end of the file at a location. -/
def append (fs : FileSystem) (location : Location) (bytes : Bytes) : FileSystem :=
  match fs.get? location with
  | some (.file content) => fs.put location (.file (content ++ bytes))
  | _ => fs

end FileSystem

namespace Handle

/-- A file takes everything, and so does the null device; the full device takes nothing. -/
def write (bytes : Bytes) (h : Handle) : Except IoError Nat × Handle :=
  match h.outlet with
  | .file location => (.ok bytes.length, { h with files := h.files.append location bytes })
  | .device .null => (.ok bytes.length, h)
  | .device .full => (if bytes = [] then .ok 0 else .error .storageFull, h)

instance : Sink Handle where
  write := write
  flush h := (.ok (), h)

end Handle
end Reckoner
