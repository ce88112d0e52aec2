/-
# Counts of one run
-/

namespace Reckoner

/-- How many lines a run has seen, for how many of them it has written a record, and how many it
has skipped. -/
@[ext] structure Report where
  scanned : Nat
  written : Nat
  skipped : Nat
deriving DecidableEq, Repr

namespace Report

def none : Report := ⟨0, 0, 0⟩

def countScanned (r : Report) : Report := { r with scanned := r.scanned + 1 }

def countWritten (r : Report) : Report := { r with written := r.written + 1 }

def countSkipped (r : Report) : Report := { r with skipped := r.skipped + 1 }

/-- The counts of two stretches of lines together. -/
instance : Add Report where
  add r s := ⟨r.scanned + s.scanned, r.written + s.written, r.skipped + s.skipped⟩

@[simp] theorem scanned_add (r s : Report) : (r + s).scanned = r.scanned + s.scanned := rfl

@[simp] theorem written_add (r s : Report) : (r + s).written = r.written + s.written := rfl

@[simp] theorem skipped_add (r s : Report) : (r + s).skipped = r.skipped + s.skipped := rfl

@[simp] theorem add_none (r : Report) : r + none = r := rfl

@[simp] theorem none_add (r : Report) : none + r = r := by
  ext <;> exact Nat.zero_add _

end Report
end Reckoner
