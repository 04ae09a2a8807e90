import Mathlib.Analysis.Complex.ExponentialBounds
import Mathlib.Analysis.SpecialFunctions.Log.Basic
import Mathlib.Analysis.SpecialFunctions.Trigonometric.DerivHyp
import OpenVlsnr.Interpolation
import OpenVlsnr.LdpcPass

/-!
# The table of the box-plus operator (`lut_log1pexp`)

In exact numbers the correction `log(1 + e^-x)` falls by less than half a unit for each unit, so the
operator has the product of the signs (`sign_boxplus_log1pexp`).  So does its interpolation in the
table, except for the jump to zero at the clamp (`lutLog1pexp_sub_le`).  The jump is no more than
`e^-40`, but that may be more than a value next to zero.  On values away from zero the operator keeps
the signs and leaves a sixtieth of the smaller one less the jump (`boxplus_table`): enough for the
rows of this library, of at most five columns, on LLRs from `1e-4` on (`boxplus_checkRule`).
-/

namespace OpenVlsnr

open Interpolation SignType

/-! ### The function behind the table -/

/-- `log1p(exp(-x))`. -/
noncomputable def log1pexp (x : ℝ) : ℝ := Real.log (1 + Real.exp (-x))

theorem log1pexp_eq (x : ℝ) : log1pexp x = Real.log (2 * Real.cosh (x / 2)) - x / 2 := by
  have hsplit : 1 + Real.exp (-x) = 2 * Real.cosh (x / 2) * Real.exp (-(x / 2)) := by
    rw [Real.cosh_eq, mul_div_cancel₀ _ two_ne_zero, add_mul, ← Real.exp_add, ← Real.exp_add,
      add_neg_cancel, Real.exp_zero, ← neg_add, add_halves]
  rw [log1pexp, hsplit, Real.log_mul (by positivity) (Real.exp_ne_zero _), Real.log_exp]
  ring

/-- The exact correction keeps the signs of all values. -/
theorem sign_boxplus_log1pexp (a b : ℝ) :
    sign (boxplus log1pexp a b) = sign a * sign b := by
  refine sign_boxplus (fun x y hx hxy => ?_) a b
  have hcosh : Real.cosh (x / 2) < Real.cosh (y / 2) := by
    rw [Real.cosh_lt_cosh, abs_of_nonneg (by linarith), abs_of_nonneg (by linarith)]
    linarith
  have hlog : Real.log (2 * Real.cosh (x / 2)) < Real.log (2 * Real.cosh (y / 2)) :=
    Real.log_lt_log (by positivity) (by linarith)
  rw [log1pexp_eq, log1pexp_eq]
  linarith

/-- The hyperbolic cosine of a sum, without the sines. -/
theorem cosh_mul_cosh_le {a b : ℝ} (ha : 0 ≤ a) (hb : 0 ≤ b) :
    Real.cosh a * Real.cosh b ≤ Real.cosh (a + b) := by
  rw [Real.cosh_add]
  have := mul_nonneg (Real.sinh_nonneg_iff.mpr ha) (Real.sinh_nonneg_iff.mpr hb)
  linarith

/-- **The fall over a step** is half the step, less what the curvature takes off. -/
theorem log1pexp_sub_le {x h : ℝ} (hx : 0 ≤ x) (hh : 0 ≤ h) :
    log1pexp x - log1pexp (x + h) ≤ h / 2 - Real.log (Real.cosh (h / 2)) := by
  have hle := cosh_mul_cosh_le (div_nonneg hx zero_le_two) (div_nonneg hh zero_le_two)
  have hlog : Real.log (2 * Real.cosh (x / 2)) + Real.log (Real.cosh (h / 2))
      ≤ Real.log (2 * Real.cosh (x / 2 + h / 2)) := by
    rw [← Real.log_mul (by positivity) (Real.cosh_pos _).ne', mul_assoc]
    exact Real.log_le_log (by positivity) (mul_le_mul_of_nonneg_left hle zero_le_two)
  rw [log1pexp_eq, log1pexp_eq, add_div]
  linarith

/-- The curvature, over one step of the table. -/
theorem log_cosh_step : 5 / 64 / 120 ≤ Real.log (Real.cosh (5 / 64 / 2)) := by
  have hsinh : (5 / 256 : ℝ) ≤ Real.sinh (5 / 256) := Real.self_le_sinh_iff.mpr (by norm_num)
  have hcosh : 1 + 2 * (5 / 256) ^ 2 ≤ Real.cosh (5 / 64 / 2) := by
    rw [show (5 / 64 / 2 : ℝ) = 2 * (5 / 256) by norm_num, Real.cosh_two_mul, Real.cosh_sq]
    have := pow_le_pow_left₀ (by norm_num) hsinh 2
    linarith
  calc (5 / 64 / 120 : ℝ) ≤ 1 - (1 + 2 * (5 / 256) ^ 2)⁻¹ := by norm_num
    _ ≤ Real.log (1 + 2 * (5 / 256) ^ 2) := Real.one_sub_inv_le_log_of_pos (by norm_num)
    _ ≤ Real.log (Real.cosh (5 / 64 / 2)) := Real.log_le_log (by norm_num) hcosh

/-- What is left at the clamp. -/
theorem log1pexp_clamp : log1pexp 40 ≤ 1 / 10 ^ 17 := by
  have hexp : (10 ^ 17 : ℝ) ≤ Real.exp 40 := by
    calc (10 ^ 17 : ℝ) ≤ (27 / 10) ^ 40 := by norm_num
      _ ≤ Real.exp 1 ^ 40 := by
        refine pow_le_pow_left₀ (by norm_num) ?_ 40
        exact le_trans (by norm_num) Real.exp_one_gt_d9.le
      _ = Real.exp 40 := by rw [← Real.exp_nat_mul]; norm_num
  have hlog := Real.log_le_sub_one_of_pos (show 0 < 1 + Real.exp (-40) by positivity)
  rw [log1pexp, Real.exp_neg] at *
  calc Real.log (1 + (Real.exp 40)⁻¹) ≤ (Real.exp 40)⁻¹ := by linarith
    _ ≤ 1 / 10 ^ 17 := by
      rw [one_div]
      exact inv_anti₀ (by norm_num) hexp

/-! ### The table -/

/-- The mathematics of the table: `log1p` and `exp`. -/
def LutReached (t : BoxplusLut ℝ) : Prop := LutReach (fun x => Real.log (1 + x)) Real.exp t

/-- The entry `i` of the table. -/
theorem initBoxplusLut_getD {i : ℕ} (hi : i ≤ 512) :
    (initBoxplusLut (fun x : ℝ => Real.log (1 + x)) Real.exp).lut.getD i 0
      = log1pexp (i * (5 / 64)) := by
  rw [initBoxplusLut]
  dsimp only
  rw [getD_map_range, if_pos (Nat.lt_succ_of_le hi), log1pexp]
  norm_num

/-- The entries of the table, before the library is initialised and after. -/
theorem LutReached.entries {t : BoxplusLut ℝ} (ht : LutReached t) :
    (∀ n < 512, t.lut.getD n 0 - t.lut.getD (n + 1) 0 ≤ 59 / 120 * (5 / 64)) ∧
      t.lut.getD 512 0 ≤ 1 / 10 ^ 17 := by
  rcases LutReach.cases ht with rfl | rfl
  · have hzero : ∀ n, (BoxplusLut.start : BoxplusLut ℝ).lut.getD n 0 = 0 := fun n =>
      getD_replicate_self _ n
    simp only [hzero]
    norm_num
  · constructor
    · intro n hn
      rw [initBoxplusLut_getD hn.le, initBoxplusLut_getD hn]
      have hstep := log1pexp_sub_le (show 0 ≤ (n : ℝ) * (5 / 64) by positivity)
        (show (0 : ℝ) ≤ 5 / 64 by norm_num)
      have hcurve := log_cosh_step
      push_cast
      rw [add_mul, one_mul]
      linarith
    · rw [initBoxplusLut_getD le_rfl]
      norm_num
      have := log1pexp_clamp
      norm_num at this
      exact this

theorem lutLog1pexp_eq (t : BoxplusLut ℝ) {x : ℝ} (hx : x < 40) :
    lutLog1pexp t x = linear (fun n => t.lut.getD n 0) (x * (64 / 5)) := by
  rw [lutLog1pexp, if_neg (not_le.mpr hx), linear]
  norm_num

/-- **The slope of the table**, with the jump at the clamp. -/
theorem lutLog1pexp_sub_le {t : BoxplusLut ℝ} (ht : LutReached t) {x y : ℝ} (hx : 0 ≤ x)
    (hxy : x ≤ y) : lutLog1pexp t x - lutLog1pexp t y ≤ 59 / 120 * (y - x) + 1 / 10 ^ 17 := by
  obtain ⟨hfall, hlast⟩ := ht.entries
  have hbelow : ∀ z : ℝ, z < 40 → z * (64 / 5) < (512 : ℕ) := by
    intro z hz
    push_cast
    linarith
  have hout : ∀ z : ℝ, ¬z < 40 → lutLog1pexp t z = 0 := fun z hz => if_pos (not_lt.mp hz)
  by_cases hx40 : x < 40
  · have hx' : 0 ≤ x * (64 / 5) := by positivity
    rw [lutLog1pexp_eq t hx40]
    by_cases hy40 : y < 40
    · rw [lutLog1pexp_eq t hy40]
      have := linear_sub_le hfall hx' (show x * (64 / 5) ≤ y * (64 / 5) by linarith)
        (hbelow y hy40)
      linarith [show (0 : ℝ) ≤ 1 / 10 ^ 17 by norm_num]
    · rw [hout y hy40]
      have := linear_sub_last_le hfall hx' (hbelow x hx40)
      push_cast at this
      linarith
  · rw [hout x hx40, hout y (by linarith)]
    have : (0 : ℝ) ≤ 1 / 10 ^ 17 := by norm_num
    linarith

/-! ### The operator -/

theorem le_abs_clampLlr {a δ : ℝ} (hδ40 : δ ≤ 40) (ha : δ ≤ |a|) : δ ≤ |clampLlr a| := by
  rw [clampLlr]
  split
  · rwa [abs_of_pos (by norm_num)]
  · split
    · rwa [abs_neg, abs_of_pos (by norm_num)]
    · exact ha

/-- The correction leaves a sixtieth, less the jump. -/
theorem boxplusLoss_table {t : BoxplusLut ℝ} (ht : LutReached t) (a b : ℝ) :
    boxplusLoss (lutLog1pexp t) a b
      ≤ 59 / 60 * min |clampLlr a| |clampLlr b| + 1 / 10 ^ 17 := by
  have hle : |(|clampLlr a| - |clampLlr b|)| ≤ |clampLlr a| + |clampLlr b| := by
    rw [abs_le]
    constructor
    · linarith [abs_nonneg (clampLlr a)]
    · linarith [abs_nonneg (clampLlr b)]
  have hfall := lutLog1pexp_sub_le ht (abs_nonneg _) hle
  rw [abs_add_abs_sub] at hfall
  rw [boxplusLoss]
  linarith

/-- **The code's operator** keeps the signs of values that are not too close to zero. -/
theorem boxplus_table {t : BoxplusLut ℝ} (ht : LutReached t) {a b δ : ℝ} (hδ : 1 / 10 ^ 14 ≤ δ)
    (hδ40 : δ ≤ 40) (ha : δ ≤ |a|) (hb : δ ≤ |b|) :
    sign (boxplus (lutLog1pexp t) a b) = sign a * sign b ∧
      δ / 100 ≤ |boxplus (lutLog1pexp t) a b| := by
  have hpos : 0 < δ := lt_of_lt_of_le (by norm_num) hδ
  have hloss := boxplusLoss_table ht a b
  have hmin := le_min (le_abs_clampLlr hδ40 ha) (le_abs_clampLlr hδ40 hb)
  have hjump : (1 / 10 ^ 17 : ℝ) ≤ δ / 1000 :=
    le_trans (by norm_num) (div_le_div_of_nonneg_right hδ (by norm_num))
  obtain ⟨hsign, habs⟩ := boxplus_of_loss (lutLog1pexp t) (abs_pos.mp (hpos.trans_le ha))
    (abs_pos.mp (hpos.trans_le hb)) (by linarith)
  refine ⟨hsign, ?_⟩
  rw [habs]
  linarith

/-- How close to zero a value may be after `n` operations. -/
noncomputable def boxplusLevel (n : ℕ) : ℝ := 1 / 10 ^ (4 + 2 * n)

theorem boxplusLevel_succ (n : ℕ) : boxplusLevel (n + 1) = boxplusLevel n / 100 := by
  rw [boxplusLevel, boxplusLevel, show 4 + 2 * (n + 1) = 4 + 2 * n + 2 by ring, pow_add,
    ← div_div]
  norm_num

/-- **A row of five columns** has the signs of the sum-product rule. -/
theorem boxplus_checkRule {t : BoxplusLut ℝ} (ht : LutReached t) :
    CheckRule (boxplus (lutLog1pexp t)) boxplusLevel 3 := by
  have hpos : ∀ n, 0 < boxplusLevel n := fun n => by
    rw [boxplusLevel]
    positivity
  have hanti : ∀ n, boxplusLevel (n + 1) ≤ boxplusLevel n := fun n => by
    rw [boxplusLevel_succ]
    linarith [hpos n]
  have hle : ∀ n, boxplusLevel n ≤ 40 := fun n =>
    (antitone_nat_of_succ_le hanti (Nat.zero_le n)).trans (by norm_num [boxplusLevel])
  refine ⟨hanti, fun n hn a b ha hb => ?_⟩
  have hdeep : 1 / 10 ^ 14 ≤ boxplusLevel n :=
    le_trans (by norm_num [boxplusLevel]) (antitone_nat_of_succ_le hanti (show n ≤ 5 by omega))
  by_cases hzero : a = 0 ∨ b = 0
  · rw [boxplus_of_zero _ hzero]
    refine ⟨?_, deep_zero⟩
    rw [sign_zero, eq_comm, mul_eq_zero]
    exact hzero.imp (fun h => by rw [h, sign_zero]) fun h => by rw [h, sign_zero]
  · obtain ⟨ha0, hb0⟩ := not_or.mp hzero
    obtain ⟨hsign, habs⟩ := boxplus_table ht hdeep (hle n) (ha.resolve_left ha0)
      (hb.resolve_left hb0)
    exact ⟨hsign, .inr (by rwa [boxplusLevel_succ])⟩

end OpenVlsnr
