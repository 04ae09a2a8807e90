import Mathlib.Algebra.Order.Field.Basic
import Mathlib.Algebra.BigOperators.Ring.Finset
import Mathlib.InformationTheory.Hamming
import Mathlib.Tactic.Linarith

/-!
# Nearest-word decoding by correlation

A bit is sent as a sign.  The correlation of two words counts the positions where they agree
against those where they differ (`sum_boolSign_mul`), so a word within half of the distance of two
code words correlates best with the nearer one (`corr_lt_of_near`).  A search that keeps the first
strict maximum ends with a candidate of the winning kind (`keepBest_wins`).
-/

namespace OpenVlsnr

namespace NearestWord

/-! ### Correlation and distance -/

section
variable {R : Type*} [CommRing R] {n : ℕ}

/-- The sign that stands for a bit. -/
def boolSign (b : Bool) : R := if b then -1 else 1

@[simp] theorem boolSign_xor (a b : Bool) : boolSign (a ^^ b) = (boolSign a * boolSign b : R) := by
  cases a <;> cases b <;> simp [boolSign]

theorem boolSign_mul (a b : Bool) : boolSign a * boolSign b = (1 - if a ≠ b then 2 else 0 : R) := by
  cases a <;> cases b <;> norm_num [boolSign]

theorem sum_boolSign_mul (x y : Fin n → Bool) :
    ∑ i, boolSign (x i) * boolSign (y i) = (n - 2 * hammingDist x y : R) := by
  simp only [boolSign_mul]
  rw [Finset.sum_sub_distrib, Finset.sum_const, Finset.card_univ, Fintype.card_fin, nsmul_one,
    ← Finset.sum_filter, Finset.sum_const, nsmul_eq_mul, mul_comm]
  rfl

end

section
variable {R : Type*} [CommRing R] [LinearOrder R] [IsStrictOrderedRing R] {n t d : ℕ}

/-- A word `y` at most `t` away from `x` is nearer to `x` than to any word at least `2 t + 1` away
from `x`. -/
theorem corr_lt_of_near {x x' y : Fin n → Bool} (hnear : hammingDist y x ≤ t)
    (hfar : d ≤ hammingDist x x') (htd : 2 * t < d) :
    ∑ i, boolSign (y i) * boolSign (x' i) < (∑ i, boolSign (y i) * boolSign (x i) : R) := by
  have htriangle := hammingDist_triangle x y x'
  rw [hammingDist_comm x y] at htriangle
  have hlt : hammingDist y x < hammingDist y x' := by omega
  have hcast : (hammingDist y x : R) < hammingDist y x' := Nat.cast_lt.mpr hlt
  rw [sum_boolSign_mul, sum_boolSign_mul]
  linarith

end

/-! ### The first strict maximum -/

section
variable {α R : Type*} [LinearOrder R] (score : α → R)

/-- A round of the search: a candidate replaces the best one so far only if it scores more. -/
def keepBest (best : R × α) (a : α) : R × α :=
  if best.1 < score a then (score a, a) else best

theorem keepBest_le (best : R × α) (a : α) :
    best.1 ≤ (keepBest score best a).1 ∧ score a ≤ (keepBest score best a).1 := by
  unfold keepBest
  split
  case isTrue hlt => exact ⟨hlt.le, le_rfl⟩
  case isFalse hge => exact ⟨le_rfl, not_lt.mp hge⟩

/-- A search ends with the start value or with a candidate and its score. -/
theorem foldl_keepBest_mem (l : List α) (best : R × α) :
    l.foldl (keepBest score) best = best ∨
      ∃ a ∈ l, l.foldl (keepBest score) best = (score a, a) := by
  induction l generalizing best with
  | nil => exact Or.inl rfl
  | cons a l ih =>
    rw [List.foldl_cons]
    rcases ih (keepBest score best a) with h | ⟨b, hb, h⟩
    · rw [h]
      unfold keepBest
      split
      · exact Or.inr ⟨a, List.mem_cons_self, rfl⟩
      · exact Or.inl rfl
    · exact Or.inr ⟨b, List.mem_cons_of_mem _ hb, h⟩

/-- Nothing scores more than what a search ends with. -/
theorem le_foldl_keepBest (l : List α) (best : R × α) :
    best.1 ≤ (l.foldl (keepBest score) best).1 ∧
      ∀ a ∈ l, score a ≤ (l.foldl (keepBest score) best).1 := by
  induction l generalizing best with
  | nil => exact ⟨le_rfl, fun a ha => absurd ha List.not_mem_nil⟩
  | cons a l ih =>
    rw [List.foldl_cons]
    obtain ⟨hbest, hrest⟩ := ih (keepBest score best a)
    obtain ⟨hkeep, hscore⟩ := keepBest_le score best a
    refine ⟨hkeep.trans hbest, fun b hb => ?_⟩
    rcases List.mem_cons.mp hb with rfl | hb
    · exact hscore.trans hbest
    · exact hrest b hb

/-- **The kind that wins**: if one candidate beats the start value and every candidate that is not
of kind `P`, then the search ends with one of kind `P`. -/
theorem keepBest_wins {P : α → Prop} {l : List α} {best : R × α} {a : α} (ha : a ∈ l)
    (hbest : best.1 < score a) (hlt : ∀ b ∈ l, ¬ P b → score b < score a) :
    P (l.foldl (keepBest score) best).2 := by
  have hle := (le_foldl_keepBest score l best).2 a ha
  rcases foldl_keepBest_mem score l best with h | ⟨b, hb, h⟩
  · rw [h] at hle
    exact absurd hbest (not_lt.mpr hle)
  · rw [h] at hle ⊢
    by_contra hP
    exact absurd (hlt b hb hP) (not_lt.mpr hle)

/-- A candidate that beats all others is found. -/
theorem keepBest_unique {l : List α} {best : R × α} {a : α} (ha : a ∈ l)
    (hbest : best.1 < score a) (hlt : ∀ b ∈ l, b ≠ a → score b < score a) :
    l.foldl (keepBest score) best = (score a, a) := by
  have hwins := keepBest_wins score (P := (· = a)) ha hbest hlt
  rcases foldl_keepBest_mem score l best with h | ⟨b, -, h⟩
  · have hle := (le_foldl_keepBest score l best).2 a ha
    rw [h] at hle
    exact absurd hbest (not_lt.mpr hle)
  · rw [h] at hwins ⊢
    have hba : b = a := hwins
    rw [hba]

end

end NearestWord

end OpenVlsnr
