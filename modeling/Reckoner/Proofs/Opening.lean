/-
# Opening files for writing, and clearing them

A path is written to at one file, `FileSystem.target?`: the one that is found there, or the one
that is made.  To open the path empties that file and touches nothing else
(`FileSystem.create_of_target?`), and afterwards the path leads to it
(`FileSystem.resolve_put_target`).

To clear a path is said here by what the path leads to, and not by how it is opened:
`FileSystem.clear_of_not_directory`.  A path that leads nowhere is left alone, although it could
be opened.
-/
import Reckoner.Job
import Reckoner.Proofs.Lookup

namespace Reckoner

namespace FileSystem

variable {fs : FileSystem} {l : Location} {content : Bytes} {path : String}

/-- The location of the regular file that is written to at a path, whether it is there already or
has to be made. -/
def target? (fs : FileSystem) (path : String) : Option Location :=
  match fs.resolve .create path with
  | .ok (.file l _) | .ok (.vacant l) => some l
  | _ => none

/-- The tree in which the file that a path leads to has been emptied. -/
def emptied (fs : FileSystem) (path : String) : FileSystem :=
  match fs.resolve .find path with
  | .ok (.file l _) => fs.put l (.file [])
  | _ => fs

/-! ## The file at a path -/

lemma target?_eq_some_iff :
    fs.target? path = some l ↔
      (∃ old, fs.resolve .create path = .ok (.file l old)) ∨
        fs.resolve .create path = .ok (.vacant l) := by
  unfold target?
  split
  · next l' old h => simp [h]
  · next l' h => simp [h]
  · next hfile hvacant =>
    constructor
    · intro h
      cases h
    · rintro (⟨old, h⟩ | h)
      · exact absurd h (hfile l old)
      · exact absurd h (hvacant l)

lemma target?_of_find {old : Bytes} (h : fs.resolve .find path = .ok (.file l old)) :
    fs.target? path = some l :=
  target?_eq_some_iff.mpr (.inl ⟨old, resolve_create_of_find h (by simp)⟩)

lemma fillable_of_target? (h : fs.target? path = some l) : fs.Fillable l := by
  rcases target?_eq_some_iff.mp h with ⟨old, hfile⟩ | hvacant
  · exact .inr ⟨old, get?_of_resolve_file hfile⟩
  · exact .inl (get?_of_resolve_vacant hvacant)

/-- To open a path empties or makes its file. -/
lemma create_of_target? (h : fs.target? path = some l) :
    fs.create path = .ok ⟨fs.put l (.file []), .file l⟩ := by
  unfold create
  rcases target?_eq_some_iff.mp h with ⟨old, hfile⟩ | hvacant
  · rw [hfile]
  · rw [hvacant]

/-- A path can be opened at its file, or at a device, or not at all. -/
lemma create_cases (fs : FileSystem) (path : String) :
    (∃ e, fs.create path = .error e) ∨ (∃ l, fs.target? path = some l) ∨
      ∃ d, fs.create path = .ok ⟨fs, .device d⟩ := by
  unfold create target?
  cases fs.resolve .create path with
  | error e => exact .inl ⟨e, rfl⟩
  | ok place =>
    cases place with
    | directory l => exact .inl ⟨_, rfl⟩
    | file l old => exact .inr (.inl ⟨l, rfl⟩)
    | device d => exact .inr (.inr ⟨d, rfl⟩)
    | vacant l => exact .inr (.inl ⟨l, rfl⟩)

/-- Once its file has been filled, a path leads to it, and to its content. -/
lemma resolve_put_target (h : fs.target? path = some l) (content : Bytes) (purpose : Purpose) :
    (fs.put l (.file content)).resolve purpose path = .ok (.file l content) := by
  have hcreate : (fs.put l (.file content)).resolve .create path = .ok (.file l content) := by
    have hfillable := fillable_of_target? h
    rcases target?_eq_some_iff.mp h with ⟨old, hfile⟩ | hvacant
    · rw [resolve_put_of_ok hfillable content hfile]
      simp [Place.refill]
    · rw [resolve_put_of_ok hfillable content hvacant]
      simp [Place.refill]
  cases purpose with
  | find => exact resolve_find_of_create hcreate (by simp)
  | create => exact hcreate

/-- Behind a link that leads to a missing file, that file is written to, and not the link. -/
example : (fresh.put ["out", "work"] (.link "new")).target? "out" = some ["new", "work"] := by
  decide +kernel

lemma target?_put_target (h : fs.target? path = some l) (content : Bytes) :
    (fs.put l (.file content)).target? path = some l :=
  target?_of_find (resolve_put_target h content .find)

lemma emptied_put_target (h : fs.target? path = some l) (content : Bytes) :
    (fs.put l (.file content)).emptied path = fs.put l (.file []) := by
  rw [emptied, resolve_put_target h content .find]
  exact put_put fs l _ _

/-! ## Reading -/

lemma read_of_resolve_file (h : fs.resolve .find path = .ok (.file l content)) :
    fs.read path = .ok content := by
  rw [read, h]

lemma read_put_target (h : fs.target? path = some l) (content : Bytes) :
    (fs.put l (.file content)).read path = .ok content :=
  read_of_resolve_file (resolve_put_target h content .find)

/-- To fill the file of a path changes that file and no other entry. -/
lemma filled_put_target (h : fs.target? path = some l) (content : Bytes) :
    (fs.put l (.file content)).get? l = some (.file content) ∧
    (fs.put l (.file content)).read path = .ok content ∧
    (∀ l', l' ≠ l → (fs.put l (.file content)).get? l' = fs.get? l') ∧
    (fs.put l (.file content)).home = fs.home := by
  refine ⟨get?_put_self fs l _, read_put_target h content, ?_, rfl⟩
  intro l' hne
  rw [get?_put, if_neg (Ne.symm hne)]

/-- A file that is filled changes what is read at the paths that lead to it, and nowhere else. -/
lemma read_put_of_ne (hl : fs.Fillable l) {old : Bytes} (h : fs.read path = .ok old)
    (hne : ∀ c, fs.resolve .find path ≠ .ok (.file l c)) (content : Bytes) :
    (fs.put l (.file content)).read path = .ok old := by
  have hput : ∀ {place}, fs.resolve .find path = .ok place →
      (fs.put l (.file content)).resolve .find path = .ok (place.refill l content) :=
    fun hplace => resolve_put_of_ok hl content hplace
  unfold read at h
  split at h
  · cases h
  · next l' c hfile =>
    cases h
    have hl' : l' ≠ l := by
      rintro rfl
      exact hne old hfile
    have hfound := hput hfile
    rw [Place.refill, if_neg hl'] at hfound
    exact read_of_resolve_file hfound
  · next hnull =>
    cases h
    rw [read, hput hnull]
    rfl
  all_goals cases h

/-! ## Clearing -/

lemma create_of_directory (h : fs.resolve .find path = .ok (.directory l)) :
    fs.create path = .error .isADirectory := by
  unfold create
  -- it is refused at the directory itself, or already at the slash behind its name
  rcases agree_resolve fs path with heq | ⟨hrefused, -⟩ | ⟨l', -, hmissing⟩
  · rw [heq, h]
  · rw [hrefused]
  · rw [h] at hmissing
    cases hmissing

lemma clear_of_directory (h : fs.resolve .find path = .ok (.directory l)) :
    fs.clear path = (.error ⟨.clearing, path, .isADirectory⟩, fs) := by
  rw [clear, pathExists, h, create_of_directory h]
  rfl

/-- **To clear a path that leads to no directory succeeds, and empties the file that it leads to.**
Where it leads to no file nothing changes. -/
lemma clear_of_not_directory (h : ∀ l, fs.resolve .find path ≠ .ok (.directory l)) :
    fs.clear path = (.ok (), fs.emptied path) := by
  unfold clear pathExists emptied
  cases hfound : fs.resolve .find path with
  | error e => rfl
  | ok place =>
    simp only [Except.isOk, Except.toBool, if_true]
    cases place with
    | directory l => exact absurd hfound (h l)
    | file l old => rw [create_of_target? (target?_of_find hfound)]
    | device d => rw [create, resolve_create_of_find hfound (by simp)]
    | vacant l => exact absurd hfound resolve_find_ne_vacant

lemma emptied_of_file {old : Bytes} (h : fs.resolve .find path = .ok (.file l old)) :
    fs.emptied path = fs.put l (.file []) := by
  rw [emptied, h]

lemma emptied_of_not_file (h : ∀ l old, fs.resolve .find path ≠ .ok (.file l old)) :
    fs.emptied path = fs := by
  unfold emptied
  split
  · next hfile => exact absurd hfile (h _ _)
  · rfl

/-- To empty a path keeps what is read elsewhere. -/
lemma read_emptied_of_ne {other : String}
    (h : fs.resolve .find other = .ok (.file l content))
    (hother : ∀ old, fs.resolve .find path ≠ .ok (.file l old)) :
    (fs.emptied path).read other = .ok content := by
  by_cases hfile : ∃ l' old, fs.resolve .find path = .ok (.file l' old)
  · obtain ⟨l', old, hfile⟩ := hfile
    -- `other` leads to `l` alone, and `path` does not lead there
    have hne : ∀ c, fs.resolve .find other ≠ .ok (.file l' c) := by
      intro c hsame
      rw [h] at hsame
      cases hsame
      exact hother old hfile
    rw [emptied_of_file hfile]
    exact read_put_of_ne (.inr ⟨old, get?_of_resolve_file hfile⟩) (read_of_resolve_file h) hne []
  · rw [emptied_of_not_file fun l' old hl' => hfile ⟨l', old, hl'⟩]
    exact read_of_resolve_file h

lemma read_emptied_of_same {other : String} {old : Bytes}
    (h : fs.resolve .find other = .ok (.file l content))
    (hsame : fs.resolve .find path = .ok (.file l old)) :
    (fs.emptied path).read other = .ok [] := by
  rw [emptied_of_file hsame]
  exact read_put_target (target?_of_find h) []

/-- What has been emptied is found empty. -/
lemma content_of_emptied {old : Bytes}
    (h : (fs.emptied path).resolve .find path = .ok (.file l old)) : old = [] := by
  unfold emptied at h
  split at h
  · next l' c hfile =>
    rw [resolve_put_target (target?_of_find hfile) [] .find] at h
    cases h
    rfl
  · next hfile => exact absurd h (hfile l old)

@[simp] lemma emptied_emptied (fs : FileSystem) (path : String) :
    (fs.emptied path).emptied path = fs.emptied path := by
  by_cases hfile : ∃ l old, (fs.emptied path).resolve .find path = .ok (.file l old)
  · obtain ⟨l, old, hfile⟩ := hfile
    have hempty := content_of_emptied hfile
    subst hempty
    rw [emptied_of_file hfile, put_of_get? (get?_of_resolve_file hfile)]
  · exact emptied_of_not_file fun l old h => hfile ⟨l, old, h⟩

lemma not_directory_emptied (h : ∀ l, fs.resolve .find path ≠ .ok (.directory l)) :
    ∀ l, (fs.emptied path).resolve .find path ≠ .ok (.directory l) := by
  intro l hl
  unfold emptied at hl
  split at hl
  · next l' old hfile =>
    rw [resolve_put_target (target?_of_find hfile) [] .find] at hl
    cases hl
  · exact h l hl

end FileSystem
end Reckoner
