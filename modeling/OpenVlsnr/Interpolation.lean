import Mathlib.Algebra.Order.Floor.Semiring
import Mathlib.Algebra.Order.SuccPred
import Mathlib.Data.Nat.SuccPred
import Mathlib.Tactic.Linarith
import Mathlib.Tactic.Ring

/-!
# Interpolation in a table

A table of values on the natural numbers, read at any point with the line through the two entries
around it.  The line through two entries moves between them (`linear_mem`), so what holds of
neighbouring entries holds of the whole curve: a table that never falls gives a curve that never
falls (`linear_mono`), and a bound on the fall from one entry to the next is a bound on the slope
(`linear_sub_le`).
-/

namespace Interpolation

/-- Entries that never fall up to `N` are in order there. -/
theorem entries_mono {α : Type*} [Preorder α] {f : ℕ → α} {N : ℕ}
    (hf : ∀ n < N, f n ≤ f (n + 1)) : MonotoneOn f (Set.Iic N) :=
  monotoneOn_of_le_add_one Set.ordConnected_Iic fun n _ _ hn => hf n hn

variable {R : Type*} [Field R] [LinearOrder R] [FloorSemiring R]

/-- The line through the entries around `t`. -/
def linear (f : ℕ → R) (t : R) : R := f ⌊t⌋₊ + (t - ⌊t⌋₊) * (f (⌊t⌋₊ + 1) - f ⌊t⌋₊)

/-- Adding a line to the entries adds it to the curve. -/
theorem linear_add (f : ℕ → R) (c t : R) :
    linear (fun n => f n + c * n) t = linear f t + c * t := by
  rw [linear, linear]
  push_cast
  ring

variable [IsStrictOrderedRing R]

/-- Between two entries of which the second is not below the first. -/
theorem linear_mem {f : ℕ → R} {t : R} (ht : 0 ≤ t) (hf : f ⌊t⌋₊ ≤ f (⌊t⌋₊ + 1)) :
    f ⌊t⌋₊ ≤ linear f t ∧ linear f t ≤ f (⌊t⌋₊ + 1) := by
  have hlow := Nat.floor_le ht
  have hhigh := (Nat.lt_floor_add_one t).le
  have hdiff := sub_nonneg.mpr hf
  rw [linear]
  constructor
  · have := mul_nonneg (sub_nonneg.mpr hlow) hdiff
    linarith
  · have := mul_le_mul_of_nonneg_right (show t - ⌊t⌋₊ ≤ 1 by linarith) hdiff
    linarith

variable {f : ℕ → R} {N : ℕ}

/-- **A table that never falls** gives a curve that never falls. -/
theorem linear_mono (hf : ∀ n < N, f n ≤ f (n + 1)) {s t : R} (hs : 0 ≤ s) (hst : s ≤ t)
    (ht : t < N) : linear f s ≤ linear f t := by
  have hfloor : ⌊t⌋₊ < N := (Nat.floor_lt (hs.trans hst)).mpr ht
  rcases (Nat.floor_le_floor hst).lt_or_eq with hlt | heq
  · -- an entry lies between the two points
    calc linear f s ≤ f (⌊s⌋₊ + 1) := (linear_mem hs (hf _ (by omega))).2
      _ ≤ f ⌊t⌋₊ := entries_mono hf (Set.mem_Iic.mpr ((Nat.succ_le_of_lt hlt).trans hfloor.le))
          (Set.mem_Iic.mpr hfloor.le) hlt
      _ ≤ linear f t := (linear_mem (hs.trans hst) (hf _ hfloor)).1
  · rw [linear, linear, heq]
    have := mul_le_mul_of_nonneg_right (sub_le_sub_right hst (⌊t⌋₊ : R))
      (sub_nonneg.mpr (hf _ hfloor))
    linarith

omit [FloorSemiring R] in
/-- A table that falls by at most `c` does not fall on a line of that slope. -/
theorem add_line_mono {c : R} (hf : ∀ n < N, f n - f (n + 1) ≤ c) :
    ∀ n < N, f n + c * n ≤ f (n + 1) + c * ((n + 1 : ℕ) : R) := by
  intro n hn
  have := hf n hn
  push_cast
  linarith

/-- **The slope of the curve** is at most that of the table. -/
theorem linear_sub_le {c : R} (hf : ∀ n < N, f n - f (n + 1) ≤ c) {s t : R} (hs : 0 ≤ s)
    (hst : s ≤ t) (ht : t < N) : linear f s - linear f t ≤ c * (t - s) := by
  have hmono := linear_mono (f := fun n => f n + c * n) (add_line_mono hf) hs hst ht
  rw [linear_add, linear_add] at hmono
  linarith

/-- The fall from a point to the end of the table. -/
theorem linear_sub_last_le {c : R} (hf : ∀ n < N, f n - f (n + 1) ≤ c) {s : R} (hs : 0 ≤ s)
    (hN : s < N) : linear f s - f N ≤ c * (N - s) := by
  have hmono := add_line_mono hf
  have hfloor : ⌊s⌋₊ < N := (Nat.floor_lt hs).mpr hN
  have hle := (linear_mem (f := fun n => f n + c * n) hs (hmono _ hfloor)).2.trans
    (entries_mono hmono (Set.mem_Iic.mpr hfloor) (Set.mem_Iic.mpr le_rfl) hfloor)
  rw [linear_add] at hle
  linarith

end Interpolation
