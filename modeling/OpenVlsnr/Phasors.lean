import Mathlib.Algebra.Order.Chebyshev
import Mathlib.Analysis.Complex.Arg
import Mathlib.Analysis.SpecialFunctions.Complex.Arg
import Mathlib.Tactic.LinearCombination

/-!
# Sums of phasors

Phasors that turn by the same angle from one to the next add up to a phasor at the angle halfway
between the first and the last, as long as they do not go round the circle (`exists_kernel`): an
estimator that adds them and takes the argument gets that angle without error (`arg_polar`).

Phasors of any kind, added in groups, are coherent at most: the magnitudes of the groups add up to
no more than `√(N E)` for `N` phasors of energy `E`, and to less as soon as two of them differ in
length (`coherence_lt_of_norm_ne`) or two of a group in direction (`coherence_lt_of_ne`).
-/

namespace OpenVlsnr

namespace Phasors

open Finset Real

/-! ### Equal steps -/

/-- The sum of cosines in equal steps, times the sine of half a step. -/
theorem sin_mul_sum_cos (n : ℕ) (φ θ : ℝ) :
    sin (θ / 2) * ∑ k ∈ range n, cos (φ + k * θ) = sin (n * θ / 2) * cos (φ + (n - 1) * θ / 2) := by
  induction n with
  | zero => simp
  | succ n ih =>
    have hsplit : ((n + 1 : ℕ) : ℝ) * θ / 2 = n * θ / 2 + θ / 2 := by
      push_cast
      ring
    have hleft : φ + n * θ = φ + (n - 1) * θ / 2 + (n * θ / 2 + θ / 2) := by ring
    have hright : φ + (((n + 1 : ℕ) : ℝ) - 1) * θ / 2 = φ + (n - 1) * θ / 2 + θ / 2 := by
      push_cast
      ring
    rw [sum_range_succ, mul_add, ih, hleft, hright, hsplit]
    generalize φ + (n - 1) * θ / 2 = a
    generalize n * θ / 2 = b
    generalize θ / 2 = c
    have hc := sin_sq_add_cos_sq c
    simp only [cos_add, sin_add]
    linear_combination (-(sin b * cos a)) * hc

theorem sin_mul_sum_sin (n : ℕ) (φ θ : ℝ) :
    sin (θ / 2) * ∑ k ∈ range n, sin (φ + k * θ) = sin (n * θ / 2) * sin (φ + (n - 1) * θ / 2) := by
  have h := sin_mul_sum_cos n (φ - π / 2) θ
  have hturn : ∀ x : ℝ, cos (φ - π / 2 + x) = sin (φ + x) := fun x => by
    rw [show φ - π / 2 + x = φ + x - π / 2 by ring, cos_sub_pi_div_two]
  simpa only [hturn] using h

/-- Neither factor changes sign before the phasors have gone round. -/
theorem kernel_pos {n : ℕ} (hn : 0 < n) {θ : ℝ} (hθ : θ ≠ 0) (h : n * |θ| < 2 * π) :
    0 < sin (n * θ / 2) / sin (θ / 2) := by
  have hone : (1 : ℝ) ≤ n := by exact_mod_cast hn
  have hle : |θ| ≤ n * |θ| := le_mul_of_one_le_left (abs_nonneg θ) hone
  rcases lt_or_gt_of_ne hθ with hneg | hpos
  · rw [abs_of_neg hneg] at h hle
    refine div_pos_of_neg_of_neg ?_ ?_
    · exact sin_neg_of_neg_of_neg_pi_lt (by nlinarith) (by linarith)
    · exact sin_neg_of_neg_of_neg_pi_lt (by linarith) (by linarith)
  · rw [abs_of_pos hpos] at h hle
    refine div_pos ?_ ?_
    · exact sin_pos_of_pos_of_lt_pi (by nlinarith) (by linarith)
    · exact sin_pos_of_pos_of_lt_pi (by linarith) (by linarith)

/-- **Phasors in equal steps** add up to a phasor at the middle angle. -/
theorem exists_kernel {n : ℕ} (hn : 0 < n) {θ : ℝ} (h : n * |θ| < 2 * π) :
    ∃ d > 0, ∀ φ, (∑ k ∈ range n, cos (φ + k * θ) = d * cos (φ + (n - 1) * θ / 2)) ∧
      ∑ k ∈ range n, sin (φ + k * θ) = d * sin (φ + (n - 1) * θ / 2) := by
  by_cases hθ : θ = 0
  · subst hθ
    refine ⟨n, by exact_mod_cast hn, fun φ => ?_⟩
    simp
  · have hpos := kernel_pos hn hθ h
    have hsin : sin (θ / 2) ≠ 0 := fun hz => by
      rw [hz, div_zero] at hpos
      exact lt_irrefl _ hpos
    refine ⟨_, hpos, fun φ => ⟨?_, ?_⟩⟩
    · rw [div_mul_eq_mul_div, ← sin_mul_sum_cos, mul_div_cancel_left₀ _ hsin]
    · rw [div_mul_eq_mul_div, ← sin_mul_sum_sin, mul_div_cancel_left₀ _ hsin]

/-! ### Arguments -/

/-- The argument of a phasor given by its angle. -/
theorem arg_polar {r θ : ℝ} (hr : 0 < r) (hlow : -π < θ) (hhigh : θ ≤ π) :
    Complex.arg ⟨r * cos θ, r * sin θ⟩ = θ := by
  refine (congrArg Complex.arg (Complex.ext ?_ ?_)).trans
    (Complex.arg_mul_cos_add_sin_mul_I hr ⟨hlow, hhigh⟩)
  · simp [Complex.cos_ofReal_re, Complex.sin_ofReal_im]
  · simp [Complex.cos_ofReal_im, Complex.sin_ofReal_re]

/-- Outside of one turn the argument differs by whole turns. -/
theorem arg_polar_turns {r : ℝ} (hr : 0 < r) (θ : ℝ) :
    ∃ k : ℤ, Complex.arg ⟨r * cos θ, r * sin θ⟩ = θ + k * (2 * π) := by
  obtain ⟨k, hk, -⟩ := existsUnique_add_zsmul_mem_Ioc Real.two_pi_pos θ (-π)
  obtain ⟨hlow, hhigh⟩ := hk
  refine ⟨k, ?_⟩
  rw [zsmul_eq_mul] at hlow hhigh
  rw [← arg_polar hr hlow (by linarith), cos_add_int_mul_two_pi, sin_add_int_mul_two_pi]

/-! ### Coherence -/

section
variable {ι κ : Type*} [DecidableEq κ] (s : Finset ι) (group : ι → κ)

/-- The magnitudes of the groups. -/
noncomputable def groupMag (z : ι → ℂ) : ℝ :=
  ∑ k ∈ s.image group, ‖∑ i ∈ s with group i = k, z i‖

variable {s group} {z : ι → ℂ}

theorem groupMag_le : groupMag s group z ≤ ∑ i ∈ s, ‖z i‖ :=
  calc groupMag s group z
      ≤ ∑ k ∈ s.image group, ∑ i ∈ s with group i = k, ‖z i‖ :=
        sum_le_sum fun _ _ => norm_sum_le _ _
    _ = ∑ i ∈ s, ‖z i‖ := sum_fiberwise_of_maps_to (fun _ hi => mem_image_of_mem group hi) _

/-- A sum over all groups is no more than their magnitudes. -/
theorem norm_sum_le_groupMag : ‖∑ i ∈ s, z i‖ ≤ groupMag s group z := by
  rw [← sum_fiberwise_of_maps_to (fun _ hi => mem_image_of_mem group hi), groupMag]
  exact norm_sum_le _ _

theorem sum_norm_le : ∑ i ∈ s, ‖z i‖ ≤ √(#s * ∑ i ∈ s, ‖z i‖ ^ 2) :=
  Real.le_sqrt_of_sq_le sq_sum_le_card_mul_sum_sq

/-- Two directions in one sum. -/
theorem norm_sum_lt {E : Type*} [NormedAddCommGroup E] [NormedSpace ℝ E] [StrictConvexSpace ℝ E]
    {z : ι → E} {t : Finset ι} {a b : ι} (ha : a ∈ t) (hb : b ∈ t)
    (hne : ¬SameRay ℝ (z a) (z b)) : ‖∑ i ∈ t, z i‖ < ∑ i ∈ t, ‖z i‖ := by
  classical
  have hab : b ≠ a := fun h => hne (by rw [h])
  rw [← add_sum_erase _ _ ha, ← add_sum_erase _ _ ha,
    ← add_sum_erase _ _ (mem_erase.mpr ⟨hab, hb⟩), ← add_sum_erase _ _ (mem_erase.mpr ⟨hab, hb⟩)]
  calc ‖z a + (z b + ∑ i ∈ (t.erase a).erase b, z i)‖
      ≤ ‖z a + z b‖ + ‖∑ i ∈ (t.erase a).erase b, z i‖ := by
        rw [← add_assoc]
        exact norm_add_le _ _
    _ < ‖z a‖ + ‖z b‖ + ∑ i ∈ (t.erase a).erase b, ‖z i‖ :=
        add_lt_add_of_lt_of_le (norm_add_lt_of_not_sameRay hne) (norm_sum_le _ _)
    _ = ‖z a‖ + (‖z b‖ + ∑ i ∈ (t.erase a).erase b, ‖z i‖) := add_assoc _ _ _

/-- Phasors of different lengths waste energy. -/
theorem coherence_lt_of_norm_ne {a b : ι} (ha : a ∈ s) (hb : b ∈ s) (hne : ‖z a‖ ≠ ‖z b‖) :
    groupMag s group z < √(#s * ∑ i ∈ s, ‖z i‖ ^ 2) := by
  refine lt_of_le_of_lt groupMag_le (Real.lt_sqrt_of_sq_lt ?_)
  set f : ι → ℝ := fun i => ‖z i‖ with hf
  have hcard : (0 : ℝ) < #s := by exact_mod_cast card_pos.mpr ⟨a, ha⟩
  -- the variance, times the number of phasors
  set μ := (∑ i ∈ s, f i) / #s with hμ
  have hsum : ∑ i ∈ s, f i = #s * μ := by rw [hμ, mul_div_cancel₀ _ hcard.ne']
  have hvar : ∑ i ∈ s, (f i - μ) ^ 2 = ∑ i ∈ s, f i ^ 2 - #s * μ ^ 2 := by
    have hexpand : ∀ i, (f i - μ) ^ 2 = f i ^ 2 - 2 * μ * f i + μ ^ 2 := fun i => by ring
    simp only [hexpand, sum_add_distrib, sum_sub_distrib, ← mul_sum, sum_const, nsmul_eq_mul, hsum]
    ring
  have hpos : 0 < ∑ i ∈ s, (f i - μ) ^ 2 := by
    by_cases hmean : f a = μ
    · refine sum_pos' (fun i _ => sq_nonneg _) ⟨b, hb, sq_pos_iff.mpr ?_⟩
      exact sub_ne_zero.mpr fun h => hne (hmean.trans h.symm)
    · exact sum_pos' (fun i _ => sq_nonneg _) ⟨a, ha, sq_pos_iff.mpr (sub_ne_zero.mpr hmean)⟩
  rw [hvar] at hpos
  rw [hsum]
  nlinarith

/-- Two phasors of one group that differ do not add up in full. -/
theorem coherence_lt_of_ne {a b : ι} (ha : a ∈ s) (hb : b ∈ s) (hgroup : group a = group b)
    (hne : z a ≠ z b) : groupMag s group z < √(#s * ∑ i ∈ s, ‖z i‖ ^ 2) := by
  by_cases hnorm : ‖z a‖ = ‖z b‖
  · refine lt_of_lt_of_le ?_ sum_norm_le
    have hray : ¬SameRay ℝ (z a) (z b) := fun h => hne (h.norm_eq_iff.mp hnorm)
    calc groupMag s group z
        < ∑ k ∈ s.image group, ∑ i ∈ s with group i = k, ‖z i‖ := by
          refine sum_lt_sum (fun _ _ => norm_sum_le _ _) ⟨group a, mem_image_of_mem group ha, ?_⟩
          exact norm_sum_lt (mem_filter.mpr ⟨ha, rfl⟩) (mem_filter.mpr ⟨hb, hgroup.symm⟩) hray
      _ = ∑ i ∈ s, ‖z i‖ := sum_fiberwise_of_maps_to (fun _ hi => mem_image_of_mem group hi) _
  · exact coherence_lt_of_norm_ne ha hb hnorm

/-- Equal phasors add up in full. -/
theorem coherence_eq {c : ℂ} (hz : ∀ i ∈ s, z i = c) : groupMag s group z = #s * ‖c‖ := by
  have hgroup : ∀ k ∈ s.image group, ‖∑ i ∈ s with group i = k, z i‖
      = ∑ i ∈ s with group i = k, ‖c‖ := fun k _ => by
    rw [sum_congr rfl fun i hi => hz i (mem_filter.mp hi).1, sum_const, sum_const, nsmul_eq_mul,
      nsmul_eq_mul, norm_mul, Complex.norm_natCast]
  rw [groupMag, sum_congr rfl hgroup,
    sum_fiberwise_of_maps_to (fun _ hi => mem_image_of_mem group hi), sum_const, nsmul_eq_mul]

/-- Groups of one length, one behind the other. -/
theorem groupMag_range {len : ℕ} (hlen : 0 < len) (m : ℕ) (z : ℕ → ℂ) :
    groupMag (range (m * len)) (· / len) z
      = ∑ k ∈ range m, ‖∑ j ∈ range len, z (k * len + j)‖ := by
  have himage : (range (m * len)).image (· / len) = range m := by
    ext k
    rw [mem_image, mem_range]
    constructor
    · rintro ⟨n, hn, rfl⟩
      exact Nat.div_lt_of_lt_mul (by rw [Nat.mul_comm]; exact mem_range.mp hn)
    · intro hk
      exact ⟨k * len, mem_range.mpr (Nat.mul_lt_mul_of_pos_right hk hlen),
        Nat.mul_div_cancel _ hlen⟩
  rw [groupMag, himage]
  refine sum_congr rfl fun k hk => congrArg norm ?_
  have hk' := mem_range.mp hk
  refine (sum_nbij (fun j => k * len + j) (fun j hj => ?_) (fun a _ b _ h => ?_) (fun n hn => ?_)
    fun _ _ => rfl).symm
  · have hj' := mem_range.mp hj
    have hend : (k + 1) * len ≤ m * len := Nat.mul_le_mul_right _ hk'
    rw [Nat.add_mul, Nat.one_mul] at hend
    refine mem_filter.mpr ⟨mem_range.mpr (by omega), ?_⟩
    rw [Nat.mul_comm, Nat.mul_add_div hlen, Nat.div_eq_of_lt hj', Nat.add_zero]
  · exact Nat.add_left_cancel h
  · obtain ⟨-, hgroup⟩ := mem_filter.mp (mem_coe.mp hn)
    refine ⟨n % len, mem_coe.mpr (mem_range.mpr (Nat.mod_lt _ hlen)), ?_⟩
    dsimp only
    rw [← hgroup, Nat.mul_comm, Nat.div_add_mod]

end

end Phasors

end OpenVlsnr
