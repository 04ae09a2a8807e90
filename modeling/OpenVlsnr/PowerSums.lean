import OpenVlsnr.BerlekampMassey
import Mathlib.LinearAlgebra.Vandermonde
import Mathlib.LinearAlgebra.Matrix.NonsingularInverse
import Mathlib.RingTheory.PowerSeries.Trunc
import Mathlib.Algebra.CharP.Two

/-!
# Recurrences of power sums

The sequence `s k = ∑ x ∈ X, y x * x ^ k` of weighted power sums of non-zero elements `X` is
generated by the polynomial whose roots are the inverses of `X`, of length `#X`
(`IsPowerSum.generates`).  Conversely, when enough terms are known, any generating polynomial
vanishes at those inverses (`IsPowerSum.locator_eq_zero`), and a polynomial of length `l` with
`l` distinct roots only generates weighted power sums (`exists_isPowerSum`).  In characteristic
two a shortest such recurrence whose sequence satisfies `s (2 * k) = s k ^ 2` has all its
weights one (`weights_eq_one`).
-/

namespace OpenVlsnr

open Finset Polynomial

variable {F : Type*} [Field F] {S σ : PowerSeries F} {l n : ℕ} {X : Finset F} {y : F → F}

/-- The first `n` terms of `S` are the power sums of `X` with weights `y`. -/
def IsPowerSum (S : PowerSeries F) (X : Finset F) (y : F → F) (n : ℕ) : Prop :=
  ∀ k, 1 ≤ k → k ≤ n → PowerSeries.coeff k S = ∑ x ∈ X, y x * x ^ k

/-- A connection polynomial of length `l` as a polynomial. -/
noncomputable def locator (σ : PowerSeries F) (l : ℕ) : F[X] := PowerSeries.trunc (l + 1) σ

theorem eval_locator (σ : PowerSeries F) (l : ℕ) (x : F) :
    (locator σ l).eval x = ∑ i ∈ range (l + 1), PowerSeries.coeff i σ * x ^ i := by
  rw [locator, Polynomial.eval_eq_sum_range' (PowerSeries.natDegree_trunc_lt σ l)]
  refine Finset.sum_congr rfl fun i hi => ?_
  rw [PowerSeries.coeff_trunc, if_pos (mem_range.mp hi)]

theorem locator_natDegree_le (σ : PowerSeries F) (l : ℕ) : (locator σ l).natDegree ≤ l :=
  Nat.lt_succ_iff.mp (PowerSeries.natDegree_trunc_lt σ l)

theorem locator_ne_zero (h : PowerSeries.coeff 0 σ = 1) : locator σ l ≠ 0 := by
  intro hz
  have hc : (locator σ l).coeff 0 = 1 := by
    rw [locator, PowerSeries.coeff_trunc, if_pos (Nat.succ_pos l), h]
  rw [hz, coeff_zero] at hc
  exact zero_ne_one hc

/-! ### Power sums and their locator -/

/-- A term of the recurrence, applied to a single power. -/
theorem sum_coeff_mul_pow (σ : PowerSeries F) {x : F} (hx : x ≠ 0) {k : ℕ} (hk : l < k) :
    ∑ i ∈ range (l + 1), PowerSeries.coeff i σ * x ^ (k - i)
      = x ^ k * (locator σ l).eval x⁻¹ := by
  rw [eval_locator, Finset.mul_sum]
  refine Finset.sum_congr rfl fun i hi => ?_
  have hik : i ≤ k := by
    have := mem_range.mp hi
    omega
  rw [pow_sub₀ x hx hik, inv_pow]
  ring

/-- The recurrence as a sum over the coefficients up to its length. -/
theorem coeff_mul_eq_sum (hσ : ∀ i, l < i → PowerSeries.coeff i σ = 0) (S : PowerSeries F)
    {k : ℕ} (hk : l < k) :
    PowerSeries.coeff k (σ * S)
      = ∑ i ∈ range (l + 1), PowerSeries.coeff i σ * PowerSeries.coeff (k - i) S := by
  rw [PowerSeries.coeff_mul, Finset.Nat.sum_antidiagonal_eq_sum_range_succ
    (fun i j => PowerSeries.coeff i σ * PowerSeries.coeff j S)]
  symm
  refine Finset.sum_subset (range_subset_range.mpr (by omega)) fun i _ hi => ?_
  rw [hσ i (by simpa using hi), zero_mul]

/-- The recurrence on power sums evaluates the polynomial at the inverses. -/
theorem IsPowerSum.coeff_mul (hS : IsPowerSum S X y n) (hX : ∀ x ∈ X, x ≠ 0)
    (hσ : ∀ i, l < i → PowerSeries.coeff i σ = 0) {k : ℕ} (hk : l < k) (hkn : k ≤ n) :
    PowerSeries.coeff k (σ * S)
      = ∑ x ∈ X, y x * (x ^ k * (locator σ l).eval x⁻¹) := by
  calc PowerSeries.coeff k (σ * S)
      = ∑ i ∈ range (l + 1), PowerSeries.coeff i σ * ∑ x ∈ X, y x * x ^ (k - i) := by
        rw [coeff_mul_eq_sum hσ S hk]
        refine Finset.sum_congr rfl fun i hi => ?_
        have := mem_range.mp hi
        rw [hS (k - i) (by omega) (by omega)]
    _ = ∑ x ∈ X, y x * ∑ i ∈ range (l + 1), PowerSeries.coeff i σ * x ^ (k - i) := by
        simp only [Finset.mul_sum]
        rw [Finset.sum_comm]
        refine Finset.sum_congr rfl fun x _ => Finset.sum_congr rfl fun i _ => ?_
        ring
    _ = ∑ x ∈ X, y x * (x ^ k * (locator σ l).eval x⁻¹) := by
        refine Finset.sum_congr rfl fun x hx => ?_
        rw [sum_coeff_mul_pow σ (hX x hx) hk]

/-- The polynomial whose roots are the inverses of `X`. -/
noncomputable def trueLocator (X : Finset F) : F[X] := ∏ x ∈ X, (1 - Polynomial.C x * Polynomial.X)

theorem trueLocator_natDegree_le (X : Finset F) : (trueLocator X).natDegree ≤ #X := by
  refine (Polynomial.natDegree_prod_le _ _).trans ?_
  rw [Finset.card_eq_sum_ones]
  refine Finset.sum_le_sum fun x _ => ?_
  refine (Polynomial.natDegree_sub_le _ _).trans ?_
  simp only [natDegree_one, zero_le, sup_of_le_right]
  exact (Polynomial.natDegree_C_mul_le x Polynomial.X).trans natDegree_X_le

theorem trueLocator_eval_inv {x : F} (hx : x ∈ X) (h0 : x ≠ 0) :
    (trueLocator X).eval x⁻¹ = 0 := by
  rw [trueLocator, Polynomial.eval_prod, Finset.prod_eq_zero hx]
  simp [h0]

/-- **Power sums of `X` satisfy a recurrence of length `#X`.** -/
theorem IsPowerSum.generates (hS : IsPowerSum S X y n) (hX : ∀ x ∈ X, x ≠ 0) :
    Generates S (trueLocator X : PowerSeries F) #X n := by
  have hdeg := trueLocator_natDegree_le X
  have hgt : ∀ i, #X < i → PowerSeries.coeff i (trueLocator X : PowerSeries F) = 0 := by
    intro i hi
    rw [Polynomial.coeff_coe, Polynomial.coeff_eq_zero_of_natDegree_lt (by omega)]
  have hself : locator (trueLocator X : PowerSeries F) #X = trueLocator X :=
    PowerSeries.trunc_coe_eq_self (by omega)
  refine ⟨?_, hgt, fun k hk hkn => ?_⟩
  · rw [Polynomial.coeff_coe, Polynomial.coeff_zero_eq_eval_zero, trueLocator,
      Polynomial.eval_prod]
    simp
  · rw [hS.coeff_mul hX hgt hk hkn, hself]
    refine Finset.sum_eq_zero fun x hx => ?_
    rw [trueLocator_eval_inv hx (hX x hx), mul_zero, mul_zero]

/-! ### Vandermonde systems -/

/-- Weights are zero if `#X` consecutive power sums of the distinct non-zero elements `g x`
vanish. -/
theorem weights_eq_zero {g : F → F} (hg : Set.InjOn g X) (h0 : ∀ x ∈ X, g x ≠ 0) (v : F → F)
    (k₀ : ℕ) (h : ∀ i < #X, ∑ x ∈ X, v x * g x ^ (k₀ + i) = 0) : ∀ x ∈ X, v x = 0 := by
  have hinj : Function.Injective fun j : Fin #X => g (X.equivFin.symm j) := by
    intro a b hab
    exact X.equivFin.symm.injective
      (Subtype.ext (hg (X.equivFin.symm a).2 (X.equivFin.symm b).2 hab))
  have hzero := Matrix.eq_zero_of_forall_pow_sum_mul_pow_eq_zero
    (v := fun j : Fin #X => v (X.equivFin.symm j) * g (X.equivFin.symm j) ^ k₀) hinj fun i => by
      rw [Equiv.sum_comp X.equivFin.symm fun x : X => v x * g x ^ k₀ * g x ^ (i : ℕ),
        Finset.sum_coe_sort X fun x => v x * g x ^ k₀ * g x ^ (i : ℕ), ← h i i.isLt]
      refine Finset.sum_congr rfl fun x _ => ?_
      ring
  intro x hx
  have hprod : v x * g x ^ k₀ = 0 := by
    have := congrFun hzero (X.equivFin ⟨x, hx⟩)
    simpa using this
  exact (mul_eq_zero.mp hprod).resolve_right (pow_ne_zero _ (h0 x hx))

/-- Weights with prescribed first power sums exist. -/
theorem exists_weights (hX : ∀ x ∈ X, x ≠ 0) (s : ℕ → F) :
    ∃ y : F → F, ∀ i < #X, s i = ∑ x ∈ X, y x * x ^ (1 + i) := by
  classical
  let A : Matrix (Fin #X) (Fin #X) F := fun i j => (X.equivFin.symm j : F) ^ (1 + (i : ℕ))
  have hsum : ∀ (w : F → F) (i : Fin #X),
      A.mulVec (fun j => w (X.equivFin.symm j)) i = ∑ x ∈ X, w x * x ^ (1 + (i : ℕ)) := by
    intro w i
    rw [← Finset.sum_coe_sort X fun x => w x * x ^ (1 + (i : ℕ)),
      ← Equiv.sum_comp X.equivFin.symm fun x : X => w x * (x : F) ^ (1 + (i : ℕ)),
      Matrix.mulVec, dotProduct]
    refine Finset.sum_congr rfl fun j _ => ?_
    exact mul_comm _ _
  have hext : ∀ v : Fin #X → F, ∃ w : F → F, v = fun j => w (X.equivFin.symm j) := by
    intro v
    refine ⟨fun x => if hx : x ∈ X then v (X.equivFin ⟨x, hx⟩) else 0, ?_⟩
    funext j
    simp
  have hinj : Function.Injective A.mulVec := by
    refine (injective_iff_map_eq_zero A.mulVecLin).mpr fun v hv => ?_
    obtain ⟨w, rfl⟩ := hext v
    have hw := weights_eq_zero (g := id) (Set.injOn_id _) hX w 1 fun i hi => by
      refine Eq.trans ?_ (congrFun hv ⟨i, hi⟩)
      exact (hsum w ⟨i, hi⟩).symm
    funext j
    exact hw _ (X.equivFin.symm j).2
  have hsurj := Matrix.mulVec_surjective_iff_isUnit.mpr
    (Matrix.mulVec_injective_iff_isUnit.mp hinj)
  obtain ⟨v, hv⟩ := hsurj fun i => s i
  obtain ⟨w, rfl⟩ := hext v
  refine ⟨w, fun i hi => ?_⟩
  rw [← hsum w ⟨i, hi⟩, hv]

/-! ### What a recurrence says about the power sums it generates -/

/-- **Roots.**  When `l + #X` terms are known, a recurrence of length `l` that generates power
sums with non-zero weights vanishes at the inverse of every element of `X`. -/
theorem IsPowerSum.locator_eq_zero (hS : IsPowerSum S X y n) (hX : ∀ x ∈ X, x ≠ 0)
    (hy : ∀ x ∈ X, y x ≠ 0) (hσ : Generates S σ l n) (hn : l + #X ≤ n) :
    ∀ x ∈ X, (locator σ l).eval x⁻¹ = 0 := by
  have hzero := weights_eq_zero (g := id) (X := X) (Set.injOn_id _) hX
    (fun x => y x * (locator σ l).eval x⁻¹) (l + 1) fun i hi => by
      rw [← hσ.conv (l + 1 + i) (by omega) (by omega),
        hS.coeff_mul hX hσ.coeff_gt (by omega) (by omega)]
      refine Finset.sum_congr rfl fun x _ => ?_
      rw [id]
      ring
  intro x hx
  exact (mul_eq_zero.mp (hzero x hx)).resolve_left (hy x hx)

/-- The inverses of `X` as a set of roots. -/
theorem card_le_of_roots [DecidableEq F] (h₀ : PowerSeries.coeff 0 σ = 1) {R : Finset F}
    (hR : ∀ r ∈ R, (locator σ l).eval r = 0) : #R ≤ l := by
  refine (Polynomial.card_le_degree_of_subset_roots (p := locator σ l) ?_).trans
    (locator_natDegree_le σ l)
  intro r hr
  exact (Polynomial.mem_roots (locator_ne_zero h₀)).mpr (hR r hr)

/-- **Weights.**  A recurrence of length `#X` that vanishes at the inverses of `X` generates
nothing but weighted power sums of `X`. -/
theorem exists_isPowerSum (hX : ∀ x ∈ X, x ≠ 0) (hσ : Generates S σ #X n)
    (hroot : ∀ x ∈ X, (locator σ #X).eval x⁻¹ = 0) : ∃ y, IsPowerSum S X y n := by
  obtain ⟨y, hy⟩ := exists_weights hX fun i => PowerSeries.coeff (1 + i) S
  refine ⟨y, ?_⟩
  intro k
  induction k using Nat.strong_induction_on with
  | _ k ih =>
    intro hk hkn
    rcases Nat.lt_or_ge #X k with hlt | hge
    · -- beyond `#X` both sides satisfy the recurrence
      have hS := hσ.conv k hlt hkn
      rw [coeff_mul_eq_sum hσ.coeff_gt S hlt, Finset.sum_range_succ', hσ.coeff_zero,
        one_mul, Nat.sub_zero] at hS
      have hpow : ∀ x ∈ X, (∑ i ∈ range #X, PowerSeries.coeff (i + 1) σ * x ^ (k - (i + 1)))
          + x ^ k = 0 := by
        intro x hx
        have h := sum_coeff_mul_pow (l := #X) σ (hX x hx) hlt
        rw [hroot x hx, mul_zero, Finset.sum_range_succ', hσ.coeff_zero, one_mul,
          Nat.sub_zero] at h
        exact h
      have hsum : ∑ i ∈ range #X, PowerSeries.coeff (i + 1) σ * PowerSeries.coeff (k - (i + 1)) S
          = -∑ x ∈ X, y x * x ^ k := by
        calc ∑ i ∈ range #X, PowerSeries.coeff (i + 1) σ * PowerSeries.coeff (k - (i + 1)) S
            = ∑ i ∈ range #X, PowerSeries.coeff (i + 1) σ
                * ∑ x ∈ X, y x * x ^ (k - (i + 1)) := by
              refine Finset.sum_congr rfl fun i hi => ?_
              have := mem_range.mp hi
              rw [ih (k - (i + 1)) (by omega) (by omega) (by omega)]
          _ = ∑ x ∈ X, y x * ∑ i ∈ range #X,
                PowerSeries.coeff (i + 1) σ * x ^ (k - (i + 1)) := by
              simp only [Finset.mul_sum]
              rw [Finset.sum_comm]
              refine Finset.sum_congr rfl fun x _ => Finset.sum_congr rfl fun i _ => ?_
              ring
          _ = -∑ x ∈ X, y x * x ^ k := by
              rw [← Finset.sum_neg_distrib]
              refine Finset.sum_congr rfl fun x hx => ?_
              rw [eq_neg_of_add_eq_zero_left (hpow x hx), mul_neg]
      rw [hsum] at hS
      exact eq_of_sub_eq_zero (by rw [← hS]; ring)
    · obtain ⟨i, rfl⟩ : ∃ i, k = 1 + i := ⟨k - 1, by omega⟩
      exact hy i (by omega)

/-- Dropping elements of weight zero. -/
theorem IsPowerSum.erase [DecidableEq F] (hS : IsPowerSum S X y n) {x : F} (hx : y x = 0) :
    IsPowerSum S (X.erase x) y n := by
  intro k hk hkn
  rw [hS k hk hkn]
  by_cases hmem : x ∈ X
  · rw [← Finset.add_sum_erase X _ hmem, hx, zero_mul, zero_add]
  · rw [Finset.erase_eq_of_notMem hmem]

/-- **Binary sequences.**  In characteristic two, if `#X` is the least length of a recurrence
for the weighted power sums and `s (2 * k) = s k ^ 2`, then every weight is one. -/
theorem weights_eq_one [CharP F 2] (hS : IsPowerSum S X y n) (hX : ∀ x ∈ X, x ≠ 0)
    (hmin : ∀ τ l', Generates S τ l' n → #X ≤ l') (hn : 2 * #X ≤ n)
    (hsq : ∀ k, 1 ≤ k → 2 * k ≤ n →
      PowerSeries.coeff (2 * k) S = PowerSeries.coeff k S ^ 2) :
    ∀ x ∈ X, y x = 1 := by
  classical
  have hne : ∀ x ∈ X, y x ≠ 0 := by
    intro x hx hzero
    have hgen := (hS.erase hzero).generates fun z hz => hX z (mem_of_mem_erase hz)
    have h₁ := hmin _ _ hgen
    have h₂ := card_erase_lt_of_mem hx
    omega
  -- the squares `x ^ 2` are distinct, so `y x ^ 2 - y x` is a weight with vanishing sums
  have hinj : Set.InjOn (fun x : F => x ^ 2) X := by
    intro a _ b _ hab
    exact frobenius_inj F 2 hab
  have hzero := weights_eq_zero hinj (fun x hx => pow_ne_zero 2 (hX x hx))
    (fun x => y x ^ 2 - y x) 1 fun i hi => by
      have h₁ := hS (1 + i) (by omega) (by omega)
      have h₂ := hS (2 * (1 + i)) (by omega) (by omega)
      rw [hsq (1 + i) (by omega) (by omega), h₁, CharTwo.sum_sq] at h₂
      rw [← sub_eq_zero.mpr h₂, ← Finset.sum_sub_distrib]
      refine Finset.sum_congr rfl fun x _ => ?_
      ring
  intro x hx
  have hmul : y x * (y x - 1) = 0 := by rw [← hzero x hx]; ring
  exact sub_eq_zero.mp ((mul_eq_zero.mp hmul).resolve_left (hne x hx))

end OpenVlsnr
