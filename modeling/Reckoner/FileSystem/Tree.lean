/-
# A tree of directories, files, links and devices

The tree is kept as a table from locations to entries.  A location is the list of names from an
entry up to the root, so that the directory around an entry is the tail of its location, and
`..` is the tail as well.  The main statements say what the table holds after one entry of it
was set.
-/
import Reckoner.Bytes

namespace Reckoner

/-- The names from an entry up to the root: `/a/b` is `["b", "a"]`, the root is `[]`. -/
abbrev Location := List String

/-- The devices, whose content is no part of the tree. -/
inductive Device where
  /-- Is empty when read, and drops what is written. -/
  | null
  /-- Has no end when read, and has no room for what is written. -/
  | full
deriving DecidableEq, Repr

/-- What can stand at a location. -/
inductive Entry where
  | directory
  | file (content : Bytes)
  | link (target : String)
  | device (device : Device)
deriving DecidableEq, Repr

/-- The entries of a tree, and the current directory. -/
structure FileSystem where
  /-- All entries with their locations. -/
  entries : List (Location × Entry)
  /-- Where relative paths start. -/
  home : Location
deriving DecidableEq, Repr

namespace FileSystem

/-- A tree whose current directory is empty. -/
def fresh : FileSystem where
  entries := [([], .directory), (["dev"], .directory), (["null", "dev"], .device .null),
    (["full", "dev"], .device .full), (["work"], .directory)]
  home := ["work"]

/-- The entry at a location in a table. -/
def lookup (l : Location) : List (Location × Entry) → Option Entry
  | [] => none
  | (k, e) :: rest => if k = l then some e else lookup l rest

/-- The table with one entry set; every other entry stays where it is. -/
def update (l : Location) (e : Entry) : List (Location × Entry) → List (Location × Entry)
  | [] => [(l, e)]
  | (k, e') :: rest => if k = l then (l, e) :: rest else (k, e') :: update l e rest

def get? (fs : FileSystem) (l : Location) : Option Entry := lookup l fs.entries

/-- The tree with one entry set. -/
def put (fs : FileSystem) (l : Location) (e : Entry) : FileSystem :=
  { fs with entries := update l e fs.entries }

theorem lookup_update (l l' : Location) (e : Entry) (es : List (Location × Entry)) :
    lookup l' (update l e es) = if l = l' then some e else lookup l' es := by
  induction es with
  | nil => simp [update, lookup]
  | cons x rest ih =>
    obtain ⟨k, e'⟩ := x
    by_cases hk : k = l
    · subst hk
      by_cases hl : k = l' <;> simp [update, lookup, hl]
    · by_cases hl : k = l'
      · subst hl
        simp [update, lookup, hk, Ne.symm hk]
      · simp [update, lookup, hk, hl, ih]

theorem update_update (l : Location) (e e' : Entry) (es : List (Location × Entry)) :
    update l e' (update l e es) = update l e' es := by
  induction es with
  | nil => simp [update]
  | cons x rest ih =>
    obtain ⟨k, e''⟩ := x
    by_cases hk : k = l <;> simp [update, hk, ih]

theorem update_of_lookup {l : Location} {e : Entry} {es : List (Location × Entry)}
    (h : lookup l es = some e) : update l e es = es := by
  induction es with
  | nil => cases h
  | cons x rest ih =>
    obtain ⟨k, e'⟩ := x
    by_cases hk : k = l
    · simp_all [update, lookup]
    · simp only [lookup, hk, if_false] at h
      simp [update, hk, ih h]

theorem get?_put (fs : FileSystem) (l l' : Location) (e : Entry) :
    (fs.put l e).get? l' = if l = l' then some e else fs.get? l' :=
  lookup_update l l' e fs.entries

@[simp] theorem get?_put_self (fs : FileSystem) (l : Location) (e : Entry) :
    (fs.put l e).get? l = some e := by
  simp [get?_put]

/-- Only the last of two entries set at one location counts. -/
@[simp] theorem put_put (fs : FileSystem) (l : Location) (e e' : Entry) :
    (fs.put l e).put l e' = fs.put l e' := by
  simp [put, update_update]

/-- To set an entry that is there already changes nothing. -/
theorem put_of_get? {fs : FileSystem} {l : Location} {e : Entry} (h : fs.get? l = some e) :
    fs.put l e = fs := by
  simp [put, update_of_lookup h]

end FileSystem
end Reckoner
