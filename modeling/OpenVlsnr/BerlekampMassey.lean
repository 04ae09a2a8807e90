import Mathlib.Tactic
import Mathlib.RingTheory.PowerSeries.Basic

/-!
# Shortest linear recurrences

A sequence `s 1, s 2, ...` is a power series `S`; a connection polynomial `σ` of length `l`
generates its first `n` terms when `σ * S` has no coefficient between `l` and `n`
(`Generates`).  The Berlekamp-Massey algorithm keeps a shortest such `σ` together with a
correction polynomial `b` (`BmInv`).  The three lemmas `BmInv.skip`, `BmInv.correct` and
`BmInv.lengthen` are its three branches.
-/

namespace OpenVlsnr

open PowerSeries Finset

variable {F : Type*} [Field F] {S σ τ b : F⟦X⟧} {l l' n : ℕ}

/-! ### Recurrences -/

/-- `σ`, of length `l`, generates the first `n` terms of `S`. -/
structure Generates (S σ : F⟦X⟧) (l n : ℕ) : Prop where
  coeff_zero : coeff 0 σ = 1
  coeff_gt : ∀ i, l < i → coeff i σ = 0
  conv : ∀ k, l < k → k ≤ n → coeff k (σ * S) = 0

theorem Generates.mono (h : Generates S σ l n) {n' : ℕ} (hn : n' ≤ n) : Generates S σ l n' :=
  ⟨h.coeff_zero, h.coeff_gt, fun k hk hkn => h.conv k hk (hkn.trans hn)⟩

/-- The discrepancy vanishes exactly when the recurrence goes on. -/
theorem Generates.succ (h : Generates S σ l n) (hd : coeff (n + 1) (σ * S) = 0) :
    Generates S σ l (n + 1) := by
  refine ⟨h.coeff_zero, h.coeff_gt, fun k hk hkn => ?_⟩
  rcases Nat.lt_succ_iff_lt_or_eq.mp (Nat.lt_succ_of_le hkn) with hlt | rfl
  · exact h.conv k hk (by omega)
  · exact hd

/-- A product whose left factor starts with one and whose right factor vanishes just below
the coefficient in question. -/
theorem coeff_mul_of_isolated {φ ψ : F⟦X⟧} {N m : ℕ} (h₀ : coeff 0 φ = 1)
    (hφ : ∀ i, m < i → coeff i φ = 0) (hψ : ∀ k, N - m ≤ k → k < N → coeff k ψ = 0) :
    coeff N (φ * ψ) = coeff N ψ := by
  rw [coeff_mul, Finset.sum_eq_single (0, N)]
  · rw [h₀, one_mul]
  · rintro ⟨i, k⟩ hik hne
    rw [Finset.HasAntidiagonal.mem_antidiagonal] at hik
    have hi : i ≠ 0 := fun h => hne (by rw [h] at hik ⊢; simp only [zero_add] at hik; rw [hik])
    rcases Nat.lt_or_ge m i with hlt | hge
    · rw [hφ i hlt, zero_mul]
    · rw [hψ k (by simp only at hik; omega) (by simp only at hik; omega), mul_zero]
  · intro h
    exact absurd (Finset.HasAntidiagonal.mem_antidiagonal.mpr (zero_add N)) h

/-- **Massey's bound.**  If `σ` generates `n` terms but not the next one, a recurrence that
generates the next one too has length at least `n + 1 - l`. -/
theorem Generates.length_bound (h : Generates S σ l n) (hd : coeff (n + 1) (σ * S) ≠ 0)
    (hτ : Generates S τ l' (n + 1)) : n + 1 ≤ l + l' := by
  by_contra hlt
  have h₁ : coeff (n + 1) (τ * (σ * S)) = coeff (n + 1) (σ * S) := by
    refine coeff_mul_of_isolated hτ.coeff_zero hτ.coeff_gt fun k hk hkn => ?_
    exact h.conv k (by omega) (by omega)
  have h₂ : coeff (n + 1) (σ * (τ * S)) = coeff (n + 1) (τ * S) := by
    refine coeff_mul_of_isolated h.coeff_zero h.coeff_gt fun k hk hkn => ?_
    exact hτ.conv k (by omega) (by omega)
  rw [mul_left_comm, h₂, hτ.conv (n + 1) (by omega) le_rfl] at h₁
  exact hd h₁.symm

/-! ### The algorithm -/

/-- The state of the algorithm after `n` terms. -/
structure BmInv (S σ b : F⟦X⟧) (l n : ℕ) : Prop where
  gen : Generates S σ l n
  shortest : ∀ τ l', Generates S τ l' n → l ≤ l'
  le : l ≤ n
  corr_gt : ∀ i, n - l < i → coeff i b = 0
  corr_conv : ∀ k, n - l < k → k < n → coeff k (b * S) = 0
  corr_top : 0 < l → coeff n (b * S) = 1

/-- Before the first term. -/
theorem BmInv.init (S : F⟦X⟧) : BmInv S 1 1 0 0 := by
  refine ⟨⟨by simp, ?_, ?_⟩, ?_, le_rfl, ?_, ?_, ?_⟩
  · intro i hi
    rw [coeff_one, if_neg (by omega)]
  · intro k hk hk0
    omega
  · intro _ l' _
    exact Nat.zero_le l'
  · intro i hi
    rw [coeff_one, if_neg (by omega)]
  · intro k _ hk
    omega
  · intro h
    omega

theorem coeff_succ_X_mul_mul (φ ψ : F⟦X⟧) (k : ℕ) :
    coeff (k + 1) (X * φ * ψ) = coeff k (φ * ψ) := by
  rw [mul_assoc, coeff_succ_X_mul]

/-- The correction polynomial moves along when the length does not change. -/
theorem BmInv.shift_corr (h : BmInv S σ b l n) :
    (∀ i, n + 1 - l < i → coeff i (X * b) = 0) ∧
      (∀ k, n + 1 - l < k → k < n + 1 → coeff k (X * b * S) = 0) ∧
      (0 < l → coeff (n + 1) (X * b * S) = 1) := by
  have hle := h.le
  refine ⟨?_, ?_, ?_⟩
  · intro i hi
    cases i with
    | zero => omega
    | succ i =>
      rw [coeff_succ_X_mul]
      exact h.corr_gt i (by omega)
  · intro k hk hkn
    cases k with
    | zero => omega
    | succ k =>
      rw [coeff_succ_X_mul_mul]
      exact h.corr_conv k (by omega) (by omega)
  · intro hl
    rw [coeff_succ_X_mul_mul]
    exact h.corr_top hl

/-- **No discrepancy**: only the correction polynomial moves. -/
theorem BmInv.skip (h : BmInv S σ b l n) (hd : coeff (n + 1) (σ * S) = 0) :
    BmInv S σ (X * b) l (n + 1) := by
  obtain ⟨h₁, h₂, h₃⟩ := h.shift_corr
  refine ⟨h.gen.succ hd, ?_, by have := h.le; omega, h₁, h₂, h₃⟩
  intro τ l' hτ
  exact h.shortest τ l' (hτ.mono (Nat.le_succ n))

/-- The corrected polynomial. -/
theorem coeff_corrected (S σ b : F⟦X⟧) (d : F) (k : ℕ) :
    coeff (k + 1) ((σ - C d * (X * b)) * S)
      = coeff (k + 1) (σ * S) - d * coeff k (b * S) := by
  rw [sub_mul, map_sub, mul_assoc (C d), coeff_C_mul, coeff_succ_X_mul_mul]

/-- The corrected polynomial generates one more term, with length `max l (n + 1 - l)`. -/
theorem BmInv.corrected_gen (h : BmInv S σ b l n) {d : F} (hd : coeff (n + 1) (σ * S) = d)
    (hl : l ≤ l') (hl' : n + 1 - l ≤ l') :
    Generates S (σ - C d * (X * b)) l' (n + 1) := by
  have hle := h.le
  refine ⟨?_, ?_, ?_⟩
  · rw [map_sub, h.gen.coeff_zero, coeff_C_mul, coeff_zero_X_mul, mul_zero, sub_zero]
  · intro i hi
    cases i with
    | zero => omega
    | succ i =>
      rw [map_sub, coeff_C_mul, coeff_succ_X_mul, h.gen.coeff_gt (i + 1) (by omega),
        h.corr_gt i (by omega), mul_zero, sub_zero]
  · intro k hk hkn
    cases k with
    | zero => omega
    | succ k =>
      rw [coeff_corrected]
      rcases Nat.lt_or_ge k n with hlt | hge
      · rw [h.gen.conv (k + 1) (by omega) (by omega), h.corr_conv k (by omega) hlt, mul_zero,
          sub_zero]
      · -- the new term: the correction cancels the discrepancy
        obtain rfl : k = n := by omega
        rw [hd, h.corr_top (by omega), mul_one, sub_self]

/-- **A discrepancy that the length can take.** -/
theorem BmInv.correct (h : BmInv S σ b l n) {d : F} (hd : coeff (n + 1) (σ * S) = d)
    (hlen : n < 2 * l) : BmInv S (σ - C d * (X * b)) (X * b) l (n + 1) := by
  obtain ⟨h₁, h₂, h₃⟩ := h.shift_corr
  refine ⟨h.corrected_gen hd le_rfl (by omega), ?_, by have := h.le; omega, h₁, h₂, h₃⟩
  intro τ l' hτ
  exact h.shortest τ l' (hτ.mono (Nat.le_succ n))

/-- **A discrepancy that makes the recurrence longer**: the old polynomial, scaled, becomes
the correction. -/
theorem BmInv.lengthen (h : BmInv S σ b l n) {d : F} (hd : coeff (n + 1) (σ * S) = d)
    (hne : d ≠ 0) (hlen : 2 * l ≤ n) :
    BmInv S (σ - C d * (X * b)) (C d⁻¹ * σ) (n + 1 - l) (n + 1) := by
  have hle := h.le
  refine ⟨h.corrected_gen hd (by omega) le_rfl, ?_, by omega, ?_, ?_, ?_⟩
  · intro τ l' hτ
    have := h.gen.length_bound (by rw [hd]; exact hne) hτ
    omega
  · intro i hi
    rw [coeff_C_mul, h.gen.coeff_gt i (by omega), mul_zero]
  · intro k hk hkn
    rw [mul_assoc, coeff_C_mul, h.gen.conv k (by omega) (by omega), mul_zero]
  · intro _
    rw [mul_assoc, coeff_C_mul, hd, inv_mul_cancel₀ hne]

end OpenVlsnr
