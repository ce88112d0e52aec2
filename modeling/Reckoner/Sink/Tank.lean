/-
# A sink that holds what is written to it

A tank keeps the bytes that it has taken, up to its limit if it has one.  Of an offer that only
partly fits it takes the part that fits.  The main statement says that writing to a tank always
leaves the beginning of the written bytes in it that there is room for.
-/
import Reckoner.Sink

namespace Reckoner

/-- A sink that holds what is written to it. -/
structure Tank where
  /-- How many bytes it can hold; `none` is no limit. -/
  limit : Option Nat
  /-- The failure of a non-empty offer to a full tank; `none` is to take nothing of it. -/
  whenFull : Option IoError
  /-- The failure of a flush; `none` is that it succeeds. -/
  whenFlushed : Option IoError
  /-- The bytes taken so far. -/
  held : Bytes
  /-- How often it was flushed. -/
  flushes : Nat
deriving DecidableEq, Repr

namespace Tank

/-- An empty tank that takes everything. -/
def unlimited : Tank := ⟨none, none, none, [], 0⟩

/-- An empty tank that takes so many bytes in all. -/
def limited (limit : Nat) (whenFull whenFlushed : Option IoError) : Tank :=
  ⟨some limit, whenFull, whenFlushed, [], 0⟩

/-- The beginning of `bytes` that there is room for. -/
def fitting (t : Tank) (bytes : Bytes) : Bytes :=
  match t.limit with
  | none => bytes
  | some n => bytes.take (n - t.held.length)

/-- The tank after it has taken the part of `bytes` that there is room for. -/
def fill (t : Tank) (bytes : Bytes) : Tank := { t with held := t.held ++ t.fitting bytes }

/-- Takes the part that fits; if nothing of a non-empty offer fits, fails as the tank does. -/
def write (bytes : Bytes) (t : Tank) : Except IoError Nat × Tank :=
  if t.fitting bytes = [] ∧ bytes ≠ [] then
    match t.whenFull with
    | none => (.ok 0, t)
    | some e => (.error e, t)
  else (.ok (t.fitting bytes).length, t.fill bytes)

/-- Counts the flush, whether it succeeds or not. -/
def flush (t : Tank) : Except IoError Unit × Tank :=
  let result := match t.whenFlushed with
    | none => .ok ()
    | some e => .error e
  (result, { t with flushes := t.flushes + 1 })

instance : Sink Tank where
  write := write
  flush := flush

@[simp] theorem fitting_nil (t : Tank) : t.fitting [] = [] := by
  unfold fitting
  split <;> simp

theorem fitting_append (t : Tank) (a b : Bytes) :
    t.fitting (a ++ b) = t.fitting a ++ (t.fill a).fitting b := by
  unfold fill fitting
  cases t.limit with
  | none => simp
  | some n =>
    simp only [List.take_append, List.length_append, List.length_take]
    congr 2
    omega

/-- To fill a tank in two portions is to fill it with both at once. -/
theorem fill_append (t : Tank) (a b : Bytes) : t.fill (a ++ b) = (t.fill a).fill b := by
  rw [fill, fitting_append]
  simp [fill]

theorem fill_of_fitting_eq_nil {t : Tank} {bytes : Bytes} (h : t.fitting bytes = []) :
    t.fill bytes = t := by
  simp [fill, h]

/-- What fits is a beginning of what is offered. -/
theorem fitting_append_drop (t : Tank) (bytes : Bytes) :
    t.fitting bytes ++ bytes.drop (t.fitting bytes).length = bytes := by
  unfold fitting
  cases t.limit with
  | none => simp
  | some n =>
    simp only [List.length_take]
    rw [List.take_eq_take_min, List.take_append_drop]

/-- Behind what fits nothing fits any more. -/
theorem fitting_fill_drop (t : Tank) (bytes : Bytes) :
    (t.fill bytes).fitting (bytes.drop (t.fitting bytes).length) = [] := by
  unfold fill fitting
  cases t.limit with
  | none => simp
  | some n =>
    rw [List.take_eq_nil_iff, List.drop_eq_nil_iff]
    simp only [List.length_append, List.length_take]
    omega

/-- The failure of a write that does not fit. -/
def refusal (t : Tank) : IoError := t.whenFull.getD .writeZero

theorem sink_flush (t : Tank) : Sink.flush t = t.flush := rfl

/-- Of all that is offered to a tank what fits is taken, and the rest is not. -/
theorem offerAll_eq (stalled : IoError) (bytes : Bytes) (t : Tank) :
    Sink.offerAll write stalled bytes t =
      (if t.fitting bytes = bytes then .ok () else .error (t.whenFull.getD stalled),
        bytes.drop (t.fitting bytes).length, t.fill bytes) := by
  induction h : bytes.length using Nat.strongRecOn generalizing bytes t with
  | _ n ih =>
    cases bytes with
    | nil => simp [fill]
    | cons b rest =>
      rw [Sink.offerAll_cons, write]
      cases hfit : t.fitting (b :: rest) with
      | nil =>
        -- nothing fits: the tank fails, or takes nothing
        have hfill := fill_of_fitting_eq_nil hfit
        cases hw : t.whenFull <;> simp [hfill]
      | cons c fit =>
        -- a first portion is taken, and behind it nothing fits
        have hdrop := t.fitting_append_drop (b :: rest)
        have hnone := t.fitting_fill_drop (b :: rest)
        rw [hfit] at hdrop hnone
        simp only [List.length_cons, List.drop_succ_cons] at hdrop hnone
        simp only [reduceCtorEq, false_and, if_false, List.length_cons, List.drop_succ_cons]
        rw [ih _ (by simp at h ⊢; omega) _ _ rfl, hnone, fill_of_fitting_eq_nil hnone]
        congr 2
        rw [← hdrop]
        simp [eq_comm]

/-- **A tank holds the beginning of what is written to it that there is room for,** and the
write succeeds exactly if that is all of it. -/
theorem writeAll_eq (bytes : Bytes) (t : Tank) :
    Sink.writeAll bytes t =
      (if t.fitting bytes = bytes then .ok () else .error t.refusal, t.fill bytes) := by
  show Sink.writeOffering write bytes t = _
  rw [Sink.writeOffering, offerAll_eq]
  rfl

theorem length_fitting_le (t : Tank) (bytes : Bytes) : (t.fitting bytes).length ≤ bytes.length := by
  have h := congrArg List.length (t.fitting_append_drop bytes)
  rw [List.length_append] at h
  omega

/-- Two portions fit together exactly if the first fits, and then the second fits behind it. -/
theorem fitting_append_eq_iff (t : Tank) (a b : Bytes) :
    t.fitting (a ++ b) = a ++ b ↔ t.fitting a = a ∧ (t.fill a).fitting b = b := by
  rw [fitting_append]
  constructor
  · intro h
    have ha := t.length_fitting_le a
    have hb := (t.fill a).length_fitting_le b
    have hlen := congrArg List.length h
    rw [List.length_append, List.length_append] at hlen
    exact List.append_inj h (by omega)
  · rintro ⟨ha, hb⟩
    rw [ha, hb]

/-- Behind a portion that does not fit nothing fits any more. -/
theorem fitting_fill_of_ne {t : Tank} {a : Bytes} (h : t.fitting a ≠ a) (b : Bytes) :
    (t.fill a).fitting b = [] := by
  unfold fill fitting at *
  cases hlimit : t.limit with
  | none => simp [hlimit] at h
  | some n =>
    have hlt : n - t.held.length < a.length := by
      rw [← Nat.not_le]
      intro hle
      rw [hlimit] at h
      exact h (List.take_of_length_le hle)
    simp only [List.length_append, List.length_take, List.take_eq_nil_iff]
    omega

/-- With a limit, what fits is decided by the room that is left. -/
theorem fitting_eq_self_iff {t : Tank} {n : Nat} (h : t.limit = some n) (bytes : Bytes) :
    t.fitting bytes = bytes ↔ bytes.length ≤ n - t.held.length := by
  simp only [fitting, h]
  constructor
  · intro htake
    rw [← htake, List.length_take]
    omega
  · exact List.take_of_length_le

/-- Several portions are written as all their bytes at once. -/
theorem writeEach_eq (portions : List Bytes) (t : Tank) :
    Sink.writeEach portions t =
      (if t.fitting portions.flatten = portions.flatten then .ok () else .error t.refusal,
        t.fill portions.flatten) := by
  induction portions generalizing t with
  | nil => simp [Sink.writeEach, fill]
  | cons portion portions ih =>
    rw [Sink.writeEach, writeAll_eq, List.flatten_cons, fill_append]
    simp only [fitting_append_eq_iff]
    by_cases hfit : t.fitting portion = portion
    · simp only [hfit, if_true, true_and]
      exact ih (t.fill portion)
    · simp only [hfit, if_false, false_and]
      rw [fill_of_fitting_eq_nil (fitting_fill_of_ne hfit _)]

end Tank
end Reckoner
