/-
# What a search for a pattern finds

The search tries one more byte before one less, and gives up a piece only when nothing behind it
matches.  So it could miss a match, or find one that is no match of the pattern.  This file
excludes both.

* `Pattern.atStart?_sound`, `Pattern.atStart?_complete`: a match at the beginning of a byte
  sequence is found exactly if there is one;
* `Pattern.find?_complete`: something is found if the pattern matches anywhere;
* `Pattern.leftmost_of_find?`: what is found begins furthest to the left;
* `Pattern.not_accepts_after`: the last piece goes as far as it can.
-/
import Mathlib.Data.List.Forall2
import Reckoner.Pattern

namespace Reckoner

/-- The numbers of bytes that an amount allows. -/
def Amount.Allows : Amount → Nat → Prop
  | one, n => n = 1
  | any, _ => True
  | some, n => 0 < n

namespace Piece

structure Takes (p : Piece) (text : Bytes) : Prop where
  accepts : ∀ b ∈ text, p.accepts b = true
  allows : p.amount.Allows text.length

section Taking

variable {α : Type} {accepts : UInt8 → Bool} {next : Bytes → Option α}

lemma takeAny_sound {bytes text : Bytes} {a : α}
    (h : takeAny accepts next bytes = some (text, a)) :
    (∀ b ∈ text, accepts b = true) ∧ ∃ rest, bytes = text ++ rest ∧ next rest = some a := by
  induction bytes generalizing text with
  | nil =>
    simp only [takeAny, Option.map_eq_some_iff, Prod.mk.injEq] at h
    obtain ⟨a', hnext, rfl, rfl⟩ := h
    exact ⟨by simp, [], rfl, hnext⟩
  | cons b rest ih =>
    rw [takeAny] at h
    split at h
    · -- one more byte is taken
      next text' a' hmore =>
      obtain ⟨rfl, rfl⟩ : b :: text' = text ∧ a' = a := by simpa using h
      split at hmore
      · next hb =>
        obtain ⟨hall, rest', rfl, hnext⟩ := ih hmore
        exact ⟨by simpa [hb] using hall, rest', rfl, hnext⟩
      · cases hmore
    · -- the run stops here
      obtain ⟨a', hnext, heq⟩ := Option.map_eq_some_iff.mp h
      obtain ⟨rfl, rfl⟩ : [] = text ∧ a' = a := by simpa using heq
      exact ⟨by simp, b :: rest, rfl, hnext⟩

/-- A run behind which `next` succeeds is found, or a longer one. -/
lemma takeAny_longest {text rest : Bytes} (hall : ∀ b ∈ text, accepts b = true)
    (hnext : (next rest).isSome) :
    ∃ text' a, takeAny accepts next (text ++ rest) = some (text', a) ∧
      text.length ≤ text'.length := by
  obtain ⟨a, ha⟩ := Option.isSome_iff_exists.mp hnext
  induction text with
  | nil =>
    cases rest with
    | nil => exact ⟨[], a, by simp [takeAny, ha], Nat.le_refl _⟩
    | cons b rest =>
      rw [List.nil_append, takeAny]
      split
      · next text' a' _ => exact ⟨b :: text', a', rfl, Nat.zero_le _⟩
      · exact ⟨[], a, by simp [ha], Nat.le_refl _⟩
  | cons b text ih =>
    obtain ⟨text', a', htake, hlen⟩ := ih fun x hx => hall x (by simp [hx])
    have hb : accepts b = true := hall b (by simp)
    refine ⟨b :: text', a', ?_, by simpa using hlen⟩
    rw [List.cons_append, takeAny, if_pos hb, htake]

lemma take_sound {p : Piece} {bytes text : Bytes} {a : α} (h : p.take next bytes = some (text, a)) :
    p.Takes text ∧ ∃ rest, bytes = text ++ rest ∧ next rest = some a := by
  obtain ⟨accepts, amount, isGroup⟩ := p
  cases amount with
  | one =>
    cases bytes with
    | nil => cases h
    | cons b rest =>
      simp only [take, takeOne] at h
      split at h
      · next hb =>
        obtain ⟨a', hnext, heq⟩ := Option.map_eq_some_iff.mp h
        obtain ⟨rfl, rfl⟩ : [b] = text ∧ a' = a := by simpa using heq
        exact ⟨⟨by simpa using hb, rfl⟩, rest, rfl, hnext⟩
      · cases h
  | any =>
    obtain ⟨hall, hrest⟩ := takeAny_sound h
    exact ⟨⟨hall, trivial⟩, hrest⟩
  | some =>
    cases bytes with
    | nil => cases h
    | cons b rest =>
      simp only [take, takeSome] at h
      split at h
      · next hb =>
        obtain ⟨⟨text', a'⟩, htake, heq⟩ := Option.map_eq_some_iff.mp h
        obtain ⟨rfl, rfl⟩ : b :: text' = text ∧ a' = a := by simpa using heq
        obtain ⟨hall, rest', rfl, hnext⟩ := takeAny_sound htake
        exact ⟨⟨by simpa using And.intro hb hall, Nat.succ_pos _⟩, rest', rfl, hnext⟩
      · cases h

/-- A text that a piece may take and behind which `next` succeeds is found, or a longer one. -/
lemma take_longest {p : Piece} {text rest : Bytes} (h : p.Takes text)
    (hnext : (next rest).isSome) :
    ∃ text' a, p.take next (text ++ rest) = some (text', a) ∧ text.length ≤ text'.length := by
  obtain ⟨hall, hallows⟩ := h
  obtain ⟨accepts, amount, isGroup⟩ := p
  cases amount with
  | one =>
    obtain ⟨b, rfl⟩ : ∃ b, text = [b] := List.length_eq_one_iff.mp hallows
    obtain ⟨a, ha⟩ := Option.isSome_iff_exists.mp hnext
    have hb : accepts b = true := hall b (by simp)
    exact ⟨[b], a, by simp [take, takeOne, hb, ha], Nat.le_refl _⟩
  | any => exact takeAny_longest hall hnext
  | some =>
    cases text with
    | nil => exact absurd hallows (Nat.lt_irrefl 0)
    | cons b text =>
      have hb : accepts b = true := hall b (by simp)
      have hall' : ∀ x ∈ text, accepts x = true := fun x hx => hall x (by simp [hx])
      obtain ⟨text', a, htake, hlen⟩ := takeAny_longest hall' hnext
      exact ⟨b :: text', a, by simp [take, takeSome, hb, htake], by simpa using hlen⟩

end Taking

end Piece

namespace Pattern

/-- The texts are those of a match of the pattern. -/
def Reads (ps : Pattern) (texts : List Bytes) : Prop := List.Forall₂ Piece.Takes ps texts

/-- What is found at the beginning of a byte sequence is a match, and nothing is lost. -/
lemma atStart?_sound {ps : Pattern} {bytes : Bytes} {m : Match} (h : ps.atStart? bytes = some m) :
    m.before = [] ∧ ps.Reads m.texts ∧ m.texts.flatten ++ m.after = bytes := by
  induction ps generalizing bytes m with
  | nil =>
    cases h
    exact ⟨rfl, .nil, rfl⟩
  | cons p ps ih =>
    obtain ⟨⟨text, m'⟩, htake, rfl⟩ := Option.map_eq_some_iff.mp h
    obtain ⟨htakes, rest, rfl, hnext⟩ := Piece.take_sound htake
    obtain ⟨hbefore, hreads, rfl⟩ := ih hnext
    exact ⟨hbefore, .cons htakes hreads, by simp⟩

lemma atStart?_complete {ps : Pattern} {texts : List Bytes} (h : ps.Reads texts) (after : Bytes) :
    (ps.atStart? (texts.flatten ++ after)).isSome := by
  induction h with
  | nil => rfl
  | cons htakes _ ih =>
    obtain ⟨text', m, htake, -⟩ := Piece.take_longest htakes ih
    rw [List.flatten_cons, List.append_assoc, atStart?, htake]
    rfl

/-- The bytes that the last piece of a pattern could take as well do not follow the match. -/
lemma not_accepts_after {ps : Pattern} {p : Piece} (hp : p.amount ≠ .one) {bytes : Bytes}
    {m : Match} (h : atStart? (ps ++ [p]) bytes = some m) :
    ∀ b ∈ m.after.head?, p.accepts b = false := by
  induction ps generalizing bytes m with
  | nil =>
    obtain ⟨⟨text, m'⟩, htake, rfl⟩ := Option.map_eq_some_iff.mp h
    obtain ⟨htakes, rest, rfl, hnext⟩ := Piece.take_sound htake
    cases hnext
    intro b hb
    obtain ⟨rest', rfl⟩ : ∃ rest', rest = b :: rest' := List.head?_eq_some_iff.mp hb
    by_contra hacc
    rw [Bool.not_eq_false] at hacc
    -- with one more byte the text would be longer
    have hlonger : p.Takes (text ++ [b]) := by
      refine ⟨fun x hx => ?_, ?_⟩
      · rcases List.mem_append.mp hx with hx | hx
        · exact htakes.accepts x hx
        · rwa [List.mem_singleton.mp hx]
      · cases hamount : p.amount with
        | one => exact absurd hamount hp
        | any => trivial
        | some => simp [Amount.Allows]
    obtain ⟨text', m', htake', hlen⟩ :=
      Piece.take_longest hlonger (show (atStart? [] rest').isSome from rfl)
    rw [List.append_assoc, List.singleton_append, htake, Option.some.injEq, Prod.mk.injEq] at htake'
    rw [← htake'.1, List.length_append] at hlen
    exact absurd hlen (by simp)
  | cons q ps ih =>
    obtain ⟨⟨text, m'⟩, htake, rfl⟩ := Option.map_eq_some_iff.mp h
    obtain ⟨-, rest, -, hnext⟩ := Piece.take_sound htake
    intro b hb
    exact ih hnext b hb

/-! ## The search from left to right -/

lemma find?_of_atStart? {ps : Pattern} {bytes : Bytes} {m : Match}
    (h : ps.atStart? bytes = some m) : ps.find? bytes = some m := by
  cases bytes with
  | nil => exact h
  | cons b rest => rw [find?, h]

/-- What is found is the match at the beginning of the bytes from some place on. -/
lemma atStart?_of_find? {ps : Pattern} {bytes : Bytes} {m : Match} (h : ps.find? bytes = some m) :
    ∃ rest, m.before ++ rest = bytes ∧ ps.atStart? rest = some { m with before := [] } := by
  induction bytes generalizing m with
  | nil =>
    obtain ⟨before, texts, after⟩ := m
    obtain ⟨rfl, -, -⟩ := atStart?_sound h
    exact ⟨[], rfl, h⟩
  | cons b rest ih =>
    rw [find?] at h
    split at h
    · next m' hstart =>
      cases h
      obtain ⟨before, texts, after⟩ := m
      obtain ⟨rfl, -, -⟩ := atStart?_sound hstart
      exact ⟨b :: rest, rfl, hstart⟩
    · obtain ⟨m', hfind, rfl⟩ := Option.map_eq_some_iff.mp h
      obtain ⟨rest', rfl, hstart⟩ := ih hfind
      exact ⟨rest', rfl, hstart⟩

lemma find?_sound {ps : Pattern} {bytes : Bytes} {m : Match} (h : ps.find? bytes = some m) :
    ps.Reads m.texts ∧ m.before ++ (m.texts.flatten ++ m.after) = bytes := by
  obtain ⟨rest, rfl, hstart⟩ := atStart?_of_find? h
  obtain ⟨-, hreads, hflat⟩ := atStart?_sound hstart
  exact ⟨hreads, congrArg (m.before ++ ·) hflat⟩

/-- Wherever there is a match, one is found that begins there or further to the left. -/
lemma find?_complete {ps : Pattern} {texts : List Bytes} (h : ps.Reads texts)
    (before after : Bytes) :
    ∃ m, ps.find? (before ++ (texts.flatten ++ after)) = some m ∧
      m.before.length ≤ before.length := by
  induction before with
  | nil =>
    obtain ⟨m, hstart⟩ := Option.isSome_iff_exists.mp (atStart?_complete h after)
    obtain ⟨hbefore, -, -⟩ := atStart?_sound hstart
    exact ⟨m, find?_of_atStart? hstart, by simp [hbefore]⟩
  | cons b before ih =>
    obtain ⟨m, hfind, hlen⟩ := ih
    rw [List.cons_append, find?]
    split
    · next m' hstart =>
      obtain ⟨hbefore, -, -⟩ := atStart?_sound hstart
      exact ⟨m', rfl, by simp [hbefore]⟩
    · exact ⟨m.shift b, by rw [hfind]; rfl, Nat.succ_le_succ hlen⟩

/-- No match begins further to the left than the one that is found. -/
lemma leftmost_of_find? {ps : Pattern} {bytes : Bytes} {m : Match} (h : ps.find? bytes = some m)
    {before after : Bytes} {texts : List Bytes} (hreads : ps.Reads texts)
    (hwhole : before ++ (texts.flatten ++ after) = bytes) : m.before.length ≤ before.length := by
  subst hwhole
  obtain ⟨m', hfind, hlen⟩ := find?_complete hreads before after
  rw [h] at hfind
  cases hfind
  exact hlen

end Pattern
end Reckoner
