/-
# Cutting a sequence at its separators

`pieces` cuts a list after each separator.  A separator belongs to no piece; what follows the
last one is a piece only if it is not empty.  Lines are the pieces of a file between line
feeds, names are the pieces of a path between slashes.
-/

namespace Reckoner

variable {α : Type}

/-- The pieces of a list that has one more element in front: a separator closes an empty piece,
any other element joins the first piece, or is a piece of its own if there is none. -/
def cutBefore (isSeparator : α → Bool) (a : α) (ps : List (List α)) : List (List α) :=
  if isSeparator a then [] :: ps
  else match ps with
    | [] => [[a]]
    | p :: ps => (a :: p) :: ps

/-- The runs of elements that end at a separator, and the rest after the last separator if
there is one. -/
def pieces (isSeparator : α → Bool) (s : List α) : List (List α) :=
  s.foldr (cutBefore isSeparator) []

@[simp] theorem pieces_nil (isSeparator : α → Bool) : pieces isSeparator [] = [] := rfl

theorem pieces_cons (isSeparator : α → Bool) (a : α) (rest : List α) :
    pieces isSeparator (a :: rest) = cutBefore isSeparator a (pieces isSeparator rest) := rfl

theorem pieces_cons_separator {isSeparator : α → Bool} {a : α} (h : isSeparator a = true)
    (rest : List α) : pieces isSeparator (a :: rest) = [] :: pieces isSeparator rest := by
  simp [pieces_cons, cutBefore, h]

/-- A run without a separator, closed by one, is the first piece. -/
theorem pieces_append_separator {isSeparator : α → Bool} {p : List α} {a : α}
    (hp : ∀ x ∈ p, isSeparator x = false) (ha : isSeparator a = true) (rest : List α) :
    pieces isSeparator (p ++ a :: rest) = p :: pieces isSeparator rest := by
  induction p with
  | nil => exact pieces_cons_separator ha rest
  | cons x p ih =>
    have hx : isSeparator x = false := hp x (by simp)
    have ih := ih fun y hy => hp y (by simp [hy])
    simp [pieces_cons, cutBefore, hx, ih]

/-- A non-empty run without a separator is its own only piece. -/
theorem pieces_unterminated {isSeparator : α → Bool} {p : List α}
    (hp : ∀ x ∈ p, isSeparator x = false) (hne : p ≠ []) : pieces isSeparator p = [p] := by
  induction p with
  | nil => exact absurd rfl hne
  | cons x p ih =>
    have hx : isSeparator x = false := hp x (by simp)
    cases p with
    | nil => simp [pieces_cons, cutBefore, hx]
    | cons y p =>
      have ih := ih (fun z hz => hp z (by simp [hz])) (by simp)
      rw [pieces_cons, ih, cutBefore, if_neg (by simp [hx])]

/-- No piece holds a separator. -/
theorem not_isSeparator_of_mem_pieces {isSeparator : α → Bool} {s p : List α}
    (hp : p ∈ pieces isSeparator s) : ∀ x ∈ p, isSeparator x = false := by
  induction s generalizing p with
  | nil => simp at hp
  | cons a rest ih =>
    by_cases ha : isSeparator a = true
    · rw [pieces_cons_separator ha, List.mem_cons] at hp
      rcases hp with rfl | hp
      · simp
      · exact ih hp
    · have ha : isSeparator a = false := by simpa using ha
      cases hr : pieces isSeparator rest with
      | nil =>
        simp only [pieces_cons, cutBefore, ha, hr, Bool.false_eq_true, if_false,
          List.mem_singleton] at hp
        subst hp
        simpa using ha
      | cons q qs =>
        simp only [pieces_cons, cutBefore, ha, hr, Bool.false_eq_true, if_false] at hp
        rcases List.mem_cons.mp hp with rfl | hp
        · intro x hx
          rcases List.mem_cons.mp hx with rfl | hx
          · exact ha
          · exact ih (by simp [hr]) x hx
        · exact ih (by simp [hr, hp])

end Reckoner
