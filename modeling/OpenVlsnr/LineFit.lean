import Mathlib.Algebra.Order.Field.Basic
import Mathlib.Algebra.Order.Group.Unbundled.Abs
import Mathlib.Tactic.FieldSimp
import Mathlib.Tactic.Linarith
import Mathlib.Tactic.LinearCombination
import Mathlib.Tactic.Positivity
import Mathlib.Tactic.Ring

/-!
# Fitting a line to unwrapped angles

Angles are known up to whole turns.  `unwrap` moves one by turns until it is within half a turn of
its predecessor, which is the right one when the angle cannot have moved by more in between
(`unwrap_eq`).  A weighted line is then fitted through its five running sums (`Moments`).

Samples on a line give that line back.  When one of them, with weight `w` at `x`, is off by `δ`,
the fitted line is off by `δ` times the leverage of that sample (`OffLine.eval_fit`).
-/

namespace OpenVlsnr

namespace LineFit

section
variable {R : Type*} [Field R] [LinearOrder R]

/-! ### Unwrapping -/

/-- `while (x - prev > half) x -= 2 * half`, for at most `rounds` tests. -/
def unwrapDown (half prev : R) : ℕ → R → Option R
  | 0, _ => none
  | rounds + 1, x => if x - prev > half then unwrapDown half prev rounds (x - 2 * half) else some x

/-- `while (x - prev < -half) x += 2 * half`, for at most `rounds` tests. -/
def unwrapUp (half prev : R) : ℕ → R → Option R
  | 0, _ => none
  | rounds + 1, x => if x - prev < -half then unwrapUp half prev rounds (x + 2 * half) else some x

def unwrap (half prev : R) (rounds : ℕ) (x : R) : Option R :=
  (unwrapDown half prev rounds x).bind (unwrapUp half prev rounds)

variable [IsStrictOrderedRing R] {half prev y : R}

theorem unwrapDown_turns (hhalf : 0 < half) (hy : |y - prev| ≤ half) (k : ℕ) {rounds : ℕ}
    (hrounds : k < rounds) (hstrict : k ≠ 0 → -half < y - prev) :
    unwrapDown half prev rounds (y + k * (2 * half)) = some y := by
  obtain ⟨hlow, hhigh⟩ := abs_le.mp hy
  induction k generalizing rounds with
  | zero =>
    obtain ⟨r, rfl⟩ : ∃ r, rounds = r + 1 := ⟨rounds - 1, by omega⟩
    rw [Nat.cast_zero, zero_mul, add_zero, unwrapDown, if_neg (not_lt.mpr hhigh)]
  | succ k ih =>
    obtain ⟨r, rfl⟩ : ∃ r, rounds = r + 1 := ⟨rounds - 1, by omega⟩
    have hgt : y + (k + 1 : ℕ) * (2 * half) - prev > half := by
      have hk : (0 : R) ≤ k * (2 * half) := by positivity
      have := hstrict (Nat.succ_ne_zero k)
      push_cast
      linarith
    have hnext : y + (k + 1 : ℕ) * (2 * half) - 2 * half = y + k * (2 * half) := by
      push_cast
      ring
    rw [unwrapDown, if_pos hgt, hnext]
    exact ih (by omega) fun _ => hstrict (Nat.succ_ne_zero k)

theorem unwrapUp_turns (hhalf : 0 < half) (hy : |y - prev| ≤ half) (k : ℕ) {rounds : ℕ}
    (hrounds : k < rounds) (hstrict : k ≠ 0 → y - prev < half) :
    unwrapUp half prev rounds (y - k * (2 * half)) = some y := by
  obtain ⟨hlow, hhigh⟩ := abs_le.mp hy
  induction k generalizing rounds with
  | zero =>
    obtain ⟨r, rfl⟩ : ∃ r, rounds = r + 1 := ⟨rounds - 1, by omega⟩
    rw [Nat.cast_zero, zero_mul, sub_zero, unwrapUp, if_neg (not_lt.mpr hlow)]
  | succ k ih =>
    obtain ⟨r, rfl⟩ : ∃ r, rounds = r + 1 := ⟨rounds - 1, by omega⟩
    have hlt : y - (k + 1 : ℕ) * (2 * half) - prev < -half := by
      have hk : (0 : R) ≤ k * (2 * half) := by positivity
      have := hstrict (Nat.succ_ne_zero k)
      push_cast
      linarith
    have hnext : y - (k + 1 : ℕ) * (2 * half) + 2 * half = y - k * (2 * half) := by
      push_cast
      ring
    rw [unwrapUp, if_pos hlt, hnext]
    exact ih (by omega) fun _ => hstrict (Nat.succ_ne_zero k)

/-- **Unwrapping** finds the angle within half a turn of its predecessor. -/
theorem unwrap_eq (hhalf : 0 < half) (hy : |y - prev| < half) {k : ℤ} {rounds : ℕ}
    (hrounds : k.natAbs < rounds) :
    unwrap half prev rounds (y + k * (2 * half)) = some y := by
  obtain ⟨hlow, hhigh⟩ := abs_lt.mp hy
  obtain ⟨n, rfl | rfl⟩ := k.eq_nat_or_neg
  · rw [Int.cast_natCast, unwrap, unwrapDown_turns hhalf hy.le n (by simpa using hrounds)
      fun _ => hlow, Option.bind_some]
    simpa using unwrapUp_turns hhalf hy.le 0 (Nat.zero_lt_of_lt hrounds) fun h => absurd rfl h
  · obtain ⟨r, rfl⟩ : ∃ r, rounds = r + 1 := ⟨rounds - 1, by omega⟩
    have hstay : ¬ y - n * (2 * half) - prev > half := by
      have hn : (0 : R) ≤ n * (2 * half) := by positivity
      linarith
    have hx : y + ((-n : ℤ) : R) * (2 * half) = y - n * (2 * half) := by
      push_cast
      ring
    rw [hx, unwrap, unwrapDown, if_neg hstay, Option.bind_some]
    exact unwrapUp_turns hhalf hy.le n (by simpa using hrounds) fun _ => hhigh

end

/-! ### The sums of a weighted line fit -/

/-- The sums of the weights `w`, of `w x`, `w y`, `w x ^ 2` and `w x y`. -/
@[ext]
structure Moments (R : Type*) where
  sw : R
  swp : R
  swt : R
  swpp : R
  swpt : R

section
variable {R : Type*} [Field R]

def Moments.zero : Moments R := ⟨0, 0, 0, 0, 0⟩

/-- A sample `y` at `x`. -/
def Moments.add (m : Moments R) (w x y : R) : Moments R where
  sw := m.sw + w
  swp := m.swp + w * x
  swt := m.swt + w * y
  swpp := m.swpp + w * x * x
  swpt := m.swpt + w * x * y

def Moments.denom (m : Moments R) : R := m.sw * m.swpp - m.swp * m.swp

def Moments.slope (m : Moments R) : R := (m.sw * m.swpt - m.swp * m.swt) / m.denom

def Moments.intercept (m : Moments R) : R := (m.swt - m.slope * m.swp) / m.sw

/-- What a unit error of a sample of weight `w` at `x` does to the fitted line at `t`. -/
def Moments.leverage (m : Moments R) (w x t : R) : R :=
  w * (m.swpp - m.swp * (x + t) + m.sw * x * t) / m.denom

/-- The samples lie on the line `a x + b`, but for one of weight `w` at `x`, which is off by `δ`. -/
structure OffLine (m : Moments R) (a b w x δ : R) : Prop where
  swt : m.swt = a * m.swp + b * m.sw + w * δ
  swpt : m.swpt = a * m.swpp + b * m.swp + w * x * δ

theorem OffLine.single (a b w x δ : R) :
    OffLine (Moments.zero.add w x (a * x + b + δ)) a b w x δ := by
  constructor <;> simp only [Moments.add, Moments.zero] <;> ring

/-- One more sample on the line. -/
theorem OffLine.add {m : Moments R} {a b w x δ : R} (h : OffLine m a b w x δ) (w' x' : R) :
    OffLine (m.add w' x' (a * x' + b)) a b w x δ := by
  constructor
  · simp only [Moments.add, h.swt]
    ring
  · simp only [Moments.add, h.swpt]
    ring

/-- **The fitted line** is off by the error of the one sample times its leverage. -/
theorem OffLine.eval_fit {m : Moments R} {a b w x δ : R} (h : OffLine m a b w x δ)
    (hsw : m.sw ≠ 0) (hdenom : m.denom ≠ 0) (t : R) :
    m.slope * t + m.intercept = a * t + b + δ * m.leverage w x t := by
  have hslope : m.slope * m.denom = m.sw * m.swpt - m.swp * m.swt := div_mul_cancel₀ _ hdenom
  have hintercept : m.intercept * m.sw = m.swt - m.slope * m.swp := div_mul_cancel₀ _ hsw
  have hleverage : m.leverage w x t * m.denom
      = w * (m.swpp - m.swp * (x + t) + m.sw * x * t) := div_mul_cancel₀ _ hdenom
  have hd : m.denom = m.sw * m.swpp - m.swp * m.swp := rfl
  rw [h.swt, h.swpt] at hslope
  rw [h.swt] at hintercept
  refine mul_right_cancel₀ (mul_ne_zero hsw hdenom) ?_
  linear_combination (t * m.sw - m.swp) * hslope + m.denom * hintercept - δ * m.sw * hleverage
    + (a * m.swp + w * δ - a * t * m.sw) * hd

end

section
variable {R : Type*} [Field R] [LinearOrder R] [IsStrictOrderedRing R]

/-- The leverage is affine in `t`: a bound at both ends holds in between. -/
theorem Moments.leverage_between {m : Moments R} {w x lo hi t c : R} (hlo : lo ≤ t) (hhi : t ≤ hi)
    (hleft : |m.leverage w x lo| ≤ c) (hright : |m.leverage w x hi| ≤ c) :
    |m.leverage w x t| ≤ c := by
  rcases (hlo.trans hhi).eq_or_lt with heq | hlt
  · rwa [le_antisymm (hhi.trans heq.ge) hlo]
  · have hmix : m.leverage w x t * (hi - lo)
        = m.leverage w x lo * (hi - t) + m.leverage w x hi * (t - lo) := by
      simp only [Moments.leverage]
      ring
    have hpos : 0 < hi - lo := sub_pos.mpr hlt
    have hone : |m.leverage w x lo * (hi - t)| ≤ c * (hi - t) := by
      rw [abs_mul, abs_of_nonneg (sub_nonneg.mpr hhi)]
      exact mul_le_mul_of_nonneg_right hleft (sub_nonneg.mpr hhi)
    have htwo : |m.leverage w x hi * (t - lo)| ≤ c * (t - lo) := by
      rw [abs_mul, abs_of_nonneg (sub_nonneg.mpr hlo)]
      exact mul_le_mul_of_nonneg_right hright (sub_nonneg.mpr hlo)
    refine le_of_mul_le_mul_right ?_ hpos
    calc |m.leverage w x t| * (hi - lo) = |m.leverage w x t * (hi - lo)| := by
          rw [abs_mul, abs_of_pos hpos]
      _ ≤ |m.leverage w x lo * (hi - t)| + |m.leverage w x hi * (t - lo)| := by
          rw [hmix]
          exact abs_add_le _ _
      _ ≤ c * (hi - lo) := by linarith

end

end LineFit

end OpenVlsnr
