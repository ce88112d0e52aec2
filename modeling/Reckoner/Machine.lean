/-
# Machines

A program asks the machine on which it runs for whatever has to do with files.  A tree of files
is such a machine: what is asked is answered from the tree, and what is done changes the tree.
-/
import Reckoner.FileSystem.Access

namespace Reckoner

/-- What can be asked of the files of a machine.  An open file is known to it by an `η`. -/
class Machine (m : Type → Type) (η : outParam Type) where
  /-- Says whether a path leads to anything. -/
  pathExists : String → m Bool
  /-- Reads the whole content behind a path. -/
  read : String → m (Except IoError Bytes)
  /-- Opens a path for writing: the file there is emptied, or created if nothing is there. -/
  create : String → m (Except IoError η)
  /-- Writes all bytes to an open file. -/
  write : Bytes → η → m (Except IoError Unit)

instance : Machine (StateM FileSystem) Outlet where
  pathExists path := fun fs => (fs.pathExists path, fs)
  read path := fun fs => (fs.read path, fs)
  create path := fun fs =>
    match fs.create path with
    | .error e => (.error e, fs)
    | .ok handle => (.ok handle.outlet, handle.files)
  write bytes outlet := fun fs =>
    let (result, handle) := Sink.writeAll bytes (⟨fs, outlet⟩ : Handle)
    (result, handle.files)

end Reckoner
