/-
# Clearing makes nothing and removes nothing

To clear a path asks first whether something is found there, and then opens it in a way that would
make a missing file.  The two lookups come to the same place, so that nothing is ever made: not the
missing file at the end of the path, and not the one behind a dangling link.  At most one regular
file is emptied, and every name in the tree stays what it was: `FileSystem.clear_spares`.
-/
import Reckoner.Proofs.Opening

namespace Reckoner.FileSystem

variable {fs : FileSystem} {l : Location} {content : Bytes} {path : String}

/-- The locations at which a tree has entries. -/
def locations (fs : FileSystem) : List Location := fs.entries.map Prod.fst

lemma map_fst_update {es : List (Location × Entry)} {old : Entry} (h : lookup l es = some old)
    (e : Entry) : (update l e es).map Prod.fst = es.map Prod.fst := by
  induction es with
  | nil => cases h
  | cons x rest ih =>
    obtain ⟨k, e'⟩ := x
    rw [update]
    split_ifs with hk
    · rw [hk, List.map_cons, List.map_cons]
    · rw [lookup, if_neg hk] at h
      rw [List.map_cons, List.map_cons, ih h]

/-- To set an entry where there is one already makes no new one. -/
lemma locations_put {old : Entry} (h : fs.get? l = some old) (e : Entry) :
    (fs.put l e).locations = fs.locations :=
  map_fst_update h e

/-! ## The ways in which clearing ends -/

lemma clear_of_file (h : fs.resolve .find path = .ok (.file l content)) :
    fs.clear path = (.ok (), fs.put l (.file [])) := by
  rw [clear_of_not_directory (by simp [h]), emptied_of_file h]

/-- Where no file is found nothing is made, although opening the path would make one. -/
lemma clear_of_not_file (hfile : ∀ l old, fs.resolve .find path ≠ .ok (.file l old))
    (hdirectory : ∀ l, fs.resolve .find path ≠ .ok (.directory l)) :
    fs.clear path = (.ok (), fs) := by
  rw [clear_of_not_directory hdirectory, emptied_of_not_file hfile]

lemma clear_of_error {e : IoError} (h : fs.resolve .find path = .error e) :
    fs.clear path = (.ok (), fs) :=
  clear_of_not_file (by simp [h]) (by simp [h])

/-- A path at which a file could be made leads to nothing yet. -/
lemma resolve_find_of_vacant (h : fs.resolve .create path = .ok (.vacant l)) :
    fs.resolve .find path = .error .notFound := by
  rcases agree_resolve fs path with heq | ⟨hrefused, -⟩ | ⟨l', -, hmissing⟩
  · rw [h] at heq
    exact absurd heq.symm resolve_find_ne_vacant
  · rw [h] at hrefused
    cases hrefused
  · exact hmissing

/-- Clearing empties a file that is there, or leaves the tree as it was. -/
lemma files_clear (fs : FileSystem) (path : String) :
    (∃ l old, fs.get? l = some (.file old) ∧ (fs.clear path).2 = fs.put l (.file [])) ∨
      (fs.clear path).2 = fs := by
  cases hfound : fs.resolve .find path with
  | error e => exact .inr (by rw [clear_of_error hfound])
  | ok place =>
    cases place with
    | directory l => exact .inr (by rw [clear_of_directory hfound])
    | file l old =>
      exact .inl ⟨l, old, get?_of_resolve_file hfound, by rw [clear_of_file hfound]⟩
    | device d => exact .inr (by rw [clear_of_not_file (by simp [hfound]) (by simp [hfound])])
    | vacant l => exact absurd hfound resolve_find_ne_vacant

lemma locations_clear (fs : FileSystem) (path : String) :
    (fs.clear path).2.locations = fs.locations := by
  rcases files_clear fs path with ⟨l, old, hold, hfiles⟩ | hfiles
  · rw [hfiles, locations_put hold]
  · rw [hfiles]

/-- What is no regular file is left as it is, and none takes its place. -/
lemma get?_clear_iff {entry : Entry} (hentry : ∀ content, entry ≠ .file content) (l : Location) :
    (fs.clear path).2.get? l = some entry ↔ fs.get? l = some entry := by
  rcases files_clear fs path with ⟨l', old, hold, hfiles⟩ | hfiles
  · rw [hfiles, get?_put]
    split_ifs with heq
    · -- at the file itself no other kind of entry stands before or after
      rw [← heq, hold, Option.some.injEq, Option.some.injEq]
      exact ⟨fun h => absurd h.symm (hentry []), fun h => absurd h.symm (hentry old)⟩
    · rfl
  · rw [hfiles]

/-- To clear a path once more does what clearing it did, and changes nothing. -/
lemma clear_again (fs : FileSystem) (path : String) :
    (fs.clear path).2.clear path = fs.clear path := by
  by_cases h : ∃ l, fs.resolve .find path = .ok (.directory l)
  · obtain ⟨l, hl⟩ := h
    rw [clear_of_directory hl, clear_of_directory hl]
  · have hne : ∀ l, fs.resolve .find path ≠ .ok (.directory l) := fun l hl => h ⟨l, hl⟩
    rw [clear_of_not_directory hne, clear_of_not_directory (not_directory_emptied hne),
      emptied_emptied]

/-! ## What clearing spares -/

/-- The result `r` of clearing a path of the tree `fs`, by what is found at the path.  Only a
regular file is changed, and it is only emptied. -/
structure Spares (fs : FileSystem) (path : String) (r : Except FileFault Unit × FileSystem) :
    Prop where
  of_file : ∀ l content, fs.resolve .find path = .ok (.file l content) →
    r.1 = .ok () ∧ r.2.get? l = some (.file []) ∧ r.2.read path = .ok [] ∧
    (∀ l', l' ≠ l → r.2.get? l' = fs.get? l') ∧ r.2.home = fs.home
  /-- It does not matter why nothing is found. -/
  of_nothing : ∀ e, fs.resolve .find path = .error e → r = (.ok (), fs)
  /-- In particular a file that could be made, at the end of the path or behind a dangling link, is
  not made. -/
  of_vacant : ∀ l, fs.resolve .create path = .ok (.vacant l) →
    r = (.ok (), fs) ∧ r.2.get? l = none
  of_directory : ∀ l, fs.resolve .find path = .ok (.directory l) →
    r = (.error ⟨.clearing, path, .isADirectory⟩, fs)
  locations_eq : r.2.locations = fs.locations
  /-- Directories, links and devices stay the ones that they are, and nothing becomes one. -/
  get?_iff : ∀ l entry, (∀ content, entry ≠ .file content) →
    (r.2.get? l = some entry ↔ fs.get? l = some entry)
  again : r.2.clear path = r

/-- **To clear a path makes nothing and removes nothing:** it empties the regular file that is found
there, through whatever links, and touches nothing else.  A second time it changes nothing. -/
theorem clear_spares (fs : FileSystem) (path : String) : Spares fs path (fs.clear path) := by
  constructor
  case of_file =>
    intro l content hfile
    obtain ⟨hget, hread, hothers, hhome⟩ := filled_put_target (target?_of_find hfile) []
    rw [clear_of_file hfile]
    exact ⟨rfl, hget, hread, hothers, hhome⟩
  case of_nothing => exact fun e => clear_of_error
  case of_vacant =>
    intro l hvacant
    rw [clear_of_error (resolve_find_of_vacant hvacant)]
    exact ⟨rfl, get?_of_resolve_vacant hvacant⟩
  case of_directory => exact fun l => clear_of_directory
  case locations_eq => exact locations_clear fs path
  case get?_iff => exact fun l entry hentry => get?_clear_iff hentry l
  case again => exact clear_again fs path

/-- The missing file behind a dangling link could be made through the link, and is not. -/
example : (fresh.put ["out", "work"] (.link "new")).clear "out" =
    (.ok (), fresh.put ["out", "work"] (.link "new")) := by
  decide +kernel

end Reckoner.FileSystem
