/-
# How a lookup sees a file that was made or filled

A tree in which one file was made or given another content is followed as before, except that
the new content is found at its location: `FileSystem.resolve_put`.  The only lookups that can
come out otherwise are those that failed for want of that file.

To follow a path so as to write there and to follow it so as to find what is there come to the
same place, `FileSystem.agree_resolve`, with two exceptions: a file that is missing at the end of
the path is not found but can be made, and a directory can be found but not written to.
-/
import Mathlib.Tactic.Common
import Reckoner.FileSystem.Access

namespace Reckoner

/-- What stands at a place once the file at `l` has been given a content. -/
def Place.refill (l : Location) (content : Bytes) : Place → Place
  | .file l' old => if l' = l then .file l content else .file l' old
  | .vacant l' => if l' = l then .file l content else .vacant l'
  | place => place

def Stop.refill (l : Location) (content : Bytes) : Stop → Stop
  | .arrived place => .arrived (place.refill l content)
  | stop => stop

namespace FileSystem

variable {fs : FileSystem} {purpose : Purpose} {links : Nat} {slashed : Bool} {here l : Location}
  {name : String} {names rest : List String} {content : Bytes} {place : Place} {path : String}

/-! ## One name on the way -/

/-- What comes of a name, other than `.` and `..`, by the entry that it names. -/
def enter (fs : FileSystem) (purpose : Purpose) (slashed : Bool) (here : Location)
    (name : String) (rest : List String) : Option Entry → Stop
  | some .directory => fs.advance purpose slashed (name :: here) rest
  | some (.link target) => .link here target rest
  | some (.file content) =>
    if rest = [] ∧ !slashed then .arrived (.file (name :: here) content)
    else .failed .notADirectory
  | some (.device d) =>
    if rest = [] ∧ !slashed then .arrived (.device d) else .failed .notADirectory
  | none =>
    if purpose = .create ∧ rest = [] then .arrived (.vacant (name :: here))
    else .failed .notFound

lemma advance_dot : fs.advance purpose slashed here ("." :: rest) =
    fs.advance purpose slashed here rest := by
  rw [advance, if_pos rfl]

lemma advance_up : fs.advance purpose slashed here (".." :: rest) =
    fs.advance purpose slashed here.tail rest := by
  rw [advance, if_neg (by decide), if_pos rfl]

lemma advance_name (hdot : name ≠ ".") (hup : name ≠ "..") :
    fs.advance purpose slashed here (name :: rest) =
      if purpose = .create ∧ rest = [] ∧ slashed then .failed .isADirectory
      else if Route.maxNameLength < name.utf8ByteSize then .failed .nameTooLong
      else fs.enter purpose slashed here name rest (fs.get? (name :: here)) := by
  rw [advance, if_neg hdot, if_neg hup]
  rfl

/-- Induction along the names of a way. -/
lemma way_induction {P : Location → List String → Prop} (nil : ∀ here, P here [])
    (dot : ∀ here rest, P here rest → P here ("." :: rest))
    (up : ∀ here rest, P here.tail rest → P here (".." :: rest))
    (name : ∀ here name rest, name ≠ "." → name ≠ ".." → P (name :: here) rest →
      P here (name :: rest)) (here : Location) (names : List String) : P here names := by
  induction names generalizing here with
  | nil => exact nil here
  | cons n rest ih =>
    by_cases hdot : n = "."
    · rw [hdot]
      exact dot here rest (ih here)
    · by_cases hup : n = ".."
      · rw [hup]
        exact up here rest (ih here.tail)
      · exact name here n rest hdot hup (ih (n :: here))

/-! ## What a lookup finds is there -/

/-- What the tree and the path say of a place that was led to.  With a slash behind it a path
leads to directories only, and to a place where nothing is only if a file is to be made. -/
def Holds (fs : FileSystem) (purpose : Purpose) (slashed : Bool) : Place → Prop
  | .directory _ => True
  | .file l content => fs.get? l = some (.file content) ∧ slashed = false
  | .device _ => slashed = false
  | .vacant l => fs.get? l = none ∧ purpose = .create

lemma holds_of_advance (h : fs.advance purpose slashed here names = .arrived place) :
    fs.Holds purpose slashed place := by
  induction here, names using way_induction with
  | nil here =>
    cases h
    trivial
  | dot here rest ih => exact ih (advance_dot ▸ h)
  | up here rest ih => exact ih (advance_up ▸ h)
  | name here name rest hdot hup ih =>
    rw [advance_name hdot hup] at h
    split_ifs at h
    cases hget : fs.get? (name :: here) with
    | none =>
      rw [hget, enter] at h
      split_ifs at h with hlast
      cases h
      exact ⟨hget, hlast.1⟩
    | some entry =>
      rw [hget] at h
      cases entry with
      | directory => exact ih h
      | link target => cases h
      | file content =>
        rw [enter] at h
        split_ifs at h with hlast
        cases h
        exact ⟨hget, by simpa using hlast.2⟩
      | device d =>
        rw [enter] at h
        split_ifs at h with hlast
        cases h
        exact by simpa [Holds] using hlast.2

/-- A slash that the path has stays with it through its links. -/
lemma holds_of_follow (h : fs.follow purpose links slashed here names = .ok place) :
    fs.Holds purpose slashed place := by
  fun_induction fs.follow purpose links slashed here names with
  | case1 _ _ _ _ _ harrived =>
    cases h
    exact holds_of_advance harrived
  | case2 => cases h
  | case3 => cases h
  | case4 slashed here names location target rest links hlink route ih =>
    have hholds := ih h
    -- a link can only add a slash, so where none is left none was there before it
    have hmono : (if rest = [] then slashed || route.slashed else slashed) = false →
        slashed = false := by
      split_ifs <;> simp +contextual
    cases place with
    | directory _ => trivial
    | file l content => exact ⟨hholds.1, hmono hholds.2⟩
    | device d => exact hmono hholds
    | vacant l => exact hholds

lemma exists_holds_of_resolve (h : fs.resolve purpose path = .ok place) :
    ∃ slashed, fs.Holds purpose slashed place := by
  unfold resolve at h
  cases hroute : Route.ofPath? path with
  | error e => rw [hroute] at h; cases h
  | ok route =>
    rw [hroute] at h
    exact ⟨_, holds_of_follow h⟩

lemma get?_of_resolve_file (h : fs.resolve purpose path = .ok (.file l content)) :
    fs.get? l = some (.file content) :=
  (exists_holds_of_resolve h).elim fun _ hholds => hholds.1

lemma get?_of_resolve_vacant (h : fs.resolve purpose path = .ok (.vacant l)) :
    fs.get? l = none :=
  (exists_holds_of_resolve h).elim fun _ hholds => hholds.1

lemma resolve_find_ne_vacant : fs.resolve .find path ≠ .ok (.vacant l) := by
  intro h
  obtain ⟨_, -, hcreate⟩ := exists_holds_of_resolve h
  cases hcreate

/-! ## Lookups in a tree where a file was filled -/

/-- At the location there is a file, or there can be one. -/
def Fillable (fs : FileSystem) (l : Location) : Prop :=
  fs.get? l = none ∨ ∃ old, fs.get? l = some (.file old)

lemma advance_put (hl : fs.Fillable l) (content : Bytes) (purpose : Purpose) (slashed : Bool)
    (here : Location) (names : List String) :
    (fs.put l (.file content)).advance purpose slashed here names =
        (fs.advance purpose slashed here names).refill l content ∨
      fs.advance purpose slashed here names = .failed .notFound ∧ fs.get? l = none := by
  induction here, names using way_induction with
  | nil here => exact .inl rfl
  | dot here rest ih => simpa only [advance_dot] using ih
  | up here rest ih => simpa only [advance_up] using ih
  | name here name rest hdot hup ih =>
    rw [advance_name hdot hup, advance_name hdot hup, get?_put]
    split_ifs with hslash hlong heq
    · exact .inl rfl
    · exact .inl rfl
    · -- the name is that of the file itself
      subst heq
      rcases hl with hnone | ⟨old, hold⟩
      · rw [hnone, enter, enter]
        by_cases hlast : purpose = .create ∧ rest = []
        · left
          have hopen : rest = [] ∧ (!slashed) = true := by
            refine ⟨hlast.2, ?_⟩
            simpa [hlast] using hslash
          rw [if_pos hlast, if_pos hopen]
          simp [Stop.refill, Place.refill]
        · rw [if_neg hlast]
          exact .inr ⟨rfl, rfl⟩
      · left
        rw [hold, enter, enter]
        split_ifs <;> simp [Stop.refill, Place.refill]
    · -- at any other name both trees have the same entry
      have hne : name :: here ≠ l := Ne.symm heq
      cases hget : fs.get? (name :: here) with
      | none =>
        left
        rw [enter, enter]
        split_ifs <;> simp [Stop.refill, Place.refill, hne]
      | some entry =>
        cases entry with
        | directory => exact ih
        | link target => exact .inl rfl
        | file old =>
          left
          rw [enter, enter]
          split_ifs <;> simp [Stop.refill, Place.refill, hne]
        | device d =>
          left
          rw [enter, enter]
          split_ifs <;> simp [Stop.refill, Place.refill]

lemma follow_of_arrived (h : fs.advance purpose slashed here names = .arrived place) :
    fs.follow purpose links slashed here names = .ok place := by
  rw [follow.eq_def, h]

lemma follow_of_failed {e : IoError} (h : fs.advance purpose slashed here names = .failed e) :
    fs.follow purpose links slashed here names = .error e := by
  rw [follow.eq_def, h]

lemma follow_of_last_link {target : String}
    (h : fs.advance purpose slashed here names = .link l target rest) :
    fs.follow purpose 0 slashed here names = .error .tooManyLinks := by
  rw [follow.eq_def, h]

/-- Behind a link the lookup goes on with one link less to follow. -/
lemma follow_of_link {target : String}
    (h : fs.advance purpose slashed here names = .link l target rest) :
    fs.follow purpose (links + 1) slashed here names =
      fs.follow purpose links
        (if rest = [] then slashed || (Route.ofString target).slashed else slashed)
        (if (Route.ofString target).absolute then [] else l)
        ((Route.ofString target).names ++ rest) := by
  rw [follow.eq_def, h]

lemma follow_put (hl : fs.Fillable l) (content : Bytes) (purpose : Purpose) (links : Nat)
    (slashed : Bool) (here : Location) (names : List String) :
    (fs.put l (.file content)).follow purpose links slashed here names =
        (fs.follow purpose links slashed here names).map (Place.refill l content) ∨
      fs.follow purpose links slashed here names = .error .notFound ∧ fs.get? l = none := by
  -- the two lookups walk to the same link, and go on behind it with the same names
  fun_induction fs.follow purpose links slashed here names with
  | case1 links slashed here names place hstop =>
    have hput := hstop ▸ advance_put hl content purpose slashed here names
    rcases hput with hput | ⟨hstop, -⟩
    · exact .inl (follow_of_arrived hput)
    · cases hstop
  | case2 links slashed here names e hstop =>
    have hput := hstop ▸ advance_put hl content purpose slashed here names
    rcases hput with hput | ⟨hstop, hnone⟩
    · exact .inl (follow_of_failed hput)
    · cases hstop
      exact .inr ⟨rfl, hnone⟩
  | case3 slashed here names location target rest hstop =>
    have hput := hstop ▸ advance_put hl content purpose slashed here names
    rcases hput with hput | ⟨hstop, -⟩
    · exact .inl (follow_of_last_link hput)
    · cases hstop
  | case4 slashed here names location target rest links hstop route ih =>
    have hput := hstop ▸ advance_put hl content purpose slashed here names
    rcases hput with hput | ⟨hstop, -⟩
    · rw [follow_of_link hput]
      exact ih
    · cases hstop

lemma resolve_put (hl : fs.Fillable l) (content : Bytes) (purpose : Purpose) (path : String) :
    (fs.put l (.file content)).resolve purpose path =
        (fs.resolve purpose path).map (Place.refill l content) ∨
      fs.resolve purpose path = .error .notFound ∧ fs.get? l = none := by
  unfold resolve
  cases Route.ofPath? path with
  | error e => exact .inl rfl
  | ok route =>
    exact follow_put hl content purpose maxLinks route.slashed (fs.start route) route.names

/-- What is found in a tree is found in it after a file was filled. -/
lemma resolve_put_of_ok (hl : fs.Fillable l) (content : Bytes)
    (h : fs.resolve purpose path = .ok place) :
    (fs.put l (.file content)).resolve purpose path = .ok (place.refill l content) := by
  rcases resolve_put hl content purpose path with hput | ⟨herror, -⟩
  · rw [hput, h]
    rfl
  · rw [h] at herror
    cases herror

/-! ## Lookups to find and lookups to write -/

/-- How the place where a path leads to one who writes there, `written`, goes with the place that
is found, `found`. -/
def Agree (found written : Except IoError Place) : Prop :=
  written = found ∨
  (written = .error .isADirectory ∧ ∀ place, found = .ok place → ∃ l, place = .directory l) ∨
  ∃ l, written = .ok (.vacant l) ∧ found = .error .notFound

lemma advance_create (fs : FileSystem) (slashed : Bool) (here : Location) (names : List String) :
    fs.advance .create slashed here names = fs.advance .find slashed here names ∨
      (slashed = true ∧ fs.advance .create slashed here names = .failed .isADirectory) ∨
      ∃ l, fs.advance .create slashed here names = .arrived (.vacant l) ∧
        fs.advance .find slashed here names = .failed .notFound := by
  induction here, names using way_induction with
  | nil here => exact .inl rfl
  | dot here rest ih => simpa only [advance_dot] using ih
  | up here rest ih => simpa only [advance_up] using ih
  | name here name rest hdot hup ih =>
    rw [advance_name hdot hup, advance_name hdot hup]
    have hfind : ¬(Purpose.find = .create ∧ rest = [] ∧ slashed = true) := fun h => nomatch h.1
    rw [if_neg hfind]
    by_cases hslash : Purpose.create = .create ∧ rest = [] ∧ slashed = true
    · rw [if_pos hslash]
      exact .inr (.inl ⟨hslash.2.2, rfl⟩)
    rw [if_neg hslash]
    split_ifs with hlong
    · exact .inl rfl
    cases hget : fs.get? (name :: here) with
    | none =>
      -- only here does it matter what the path is followed for
      by_cases hlast : rest = []
      · refine .inr (.inr ⟨name :: here, ?_, ?_⟩) <;> simp [enter, hlast]
      · exact .inl (by simp [enter, hlast])
    | some entry =>
      cases entry with
      | directory => exact ih
      | link target => exact .inl rfl
      | file content => exact .inl rfl
      | device d => exact .inl rfl

/-- Where a walk to write ends in another way than a walk to find, no link is followed. -/
lemma agree_follow_of_ne
    (hne : fs.advance .create slashed here names ≠ fs.advance .find slashed here names) :
    Agree (fs.follow .find links slashed here names)
      (fs.follow .create links slashed here names) := by
  rcases advance_create fs slashed here names with heq | ⟨hslash, hrefused⟩ | ⟨l, hvacant, hmissing⟩
  · exact absurd heq hne
  · -- with a slash behind it the path leads to a directory, if anywhere
    refine .inr (.inl ⟨follow_of_failed hrefused, fun place hplace => ?_⟩)
    have hholds := holds_of_follow hplace
    rw [hslash] at hholds
    cases place with
    | directory l => exact ⟨l, rfl⟩
    | file l content => cases hholds.2
    | device d => cases hholds
    | vacant l => cases hholds.2
  · exact .inr (.inr ⟨l, follow_of_arrived hvacant, follow_of_failed hmissing⟩)

lemma agree_follow (fs : FileSystem) (links : Nat) (slashed : Bool) (here : Location)
    (names : List String) :
    Agree (fs.follow .find links slashed here names)
      (fs.follow .create links slashed here names) := by
  by_cases heq : fs.advance .create slashed here names = fs.advance .find slashed here names
  · cases hstop : fs.advance .find slashed here names with
    | arrived place =>
      rw [follow_of_arrived hstop, follow_of_arrived (heq.trans hstop)]
      exact .inl rfl
    | failed e =>
      rw [follow_of_failed hstop, follow_of_failed (heq.trans hstop)]
      exact .inl rfl
    | link location target rest =>
      cases links with
      | zero =>
        rw [follow_of_last_link hstop, follow_of_last_link (heq.trans hstop)]
        exact .inl rfl
      | succ links =>
        rw [follow_of_link hstop, follow_of_link (heq.trans hstop)]
        exact agree_follow fs links _ _ _
  · exact agree_follow_of_ne heq

lemma agree_resolve (fs : FileSystem) (path : String) :
    Agree (fs.resolve .find path) (fs.resolve .create path) := by
  unfold resolve
  cases Route.ofPath? path with
  | error e => exact .inl rfl
  | ok route => exact agree_follow fs maxLinks route.slashed (fs.start route) route.names

/-- What is no directory is written to where it is found. -/
lemma resolve_create_of_find (h : fs.resolve .find path = .ok place)
    (hplace : ∀ l, place ≠ .directory l) : fs.resolve .create path = .ok place := by
  rcases agree_resolve fs path with heq | ⟨-, hdirectory⟩ | ⟨l, -, hmissing⟩
  · rw [heq, h]
  · obtain ⟨l, hl⟩ := hdirectory place h
    exact absurd hl (hplace l)
  · rw [h] at hmissing
    cases hmissing

lemma resolve_find_of_create (h : fs.resolve .create path = .ok place)
    (hplace : ∀ l, place ≠ .vacant l) : fs.resolve .find path = .ok place := by
  rcases agree_resolve fs path with heq | ⟨hrefused, -⟩ | ⟨l, hvacant, -⟩
  · rw [← heq, h]
  · rw [h] at hrefused
    cases hrefused
  · rw [h] at hvacant
    cases hvacant
    exact absurd rfl (hplace l)

end FileSystem
end Reckoner
