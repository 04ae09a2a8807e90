import Mathlib.Algebra.BigOperators.Intervals
import Mathlib.Algebra.BigOperators.Ring.Finset
import Mathlib.Data.Nat.Bitwise
import Mathlib.Tactic.Abel
import Mathlib.Tactic.LinearCombination
import Mathlib.Tactic.Ring

/-!
# Transforms of power-of-two length

The discrete Fourier transform over a commutative ring with a tower of roots, each the square of the
next one and `-1` at the bottom.

* Bit reversal: `rev`, an involution (`rev_rev`).
* `dft_succ`, `dft_succ_add`: a transform is a butterfly of two transforms of half the length.
* `Staged`: what an in-place transform has done after its first stages; `Staged.butterfly` is the
  stage, `Staged.start` and `Staged.finish` the two ends.
* `dft_inverse_mul`: the transform of a product is a circular convolution, and the linear one where
  the operands are short enough not to wrap around (`dft_inverse_mul_linear`).
-/

namespace OpenVlsnr

namespace Radix2

open Finset

/-! ### Bit reversal -/

/-- The `k` low bits of a number in the opposite order. -/
def rev : ℕ → ℕ → ℕ
  | 0, _ => 0
  | k + 1, n => 2 ^ k * (n % 2) + rev k (n / 2)

theorem rev_lt (k n : ℕ) : rev k n < 2 ^ k := by
  induction k generalizing n with
  | zero => exact Nat.one_pos
  | succ k ih =>
    have hrest := ih (n / 2)
    have hbit : 2 ^ k * (n % 2) ≤ 2 ^ k * 1 := Nat.mul_le_mul_left _ (by omega)
    rw [rev, pow_succ]
    omega

theorem testBit_rev (k n j : ℕ) :
    (rev k n).testBit j = (decide (j < k) && n.testBit (k - 1 - j)) := by
  induction k generalizing n j with
  | zero => simp [rev]
  | succ k ih =>
    rw [rev, Nat.testBit_two_pow_mul_add _ (rev_lt k _), ih]
    rcases Nat.lt_trichotomy j k with hlt | rfl | hgt
    · rw [if_pos hlt, Nat.testBit_div_two, decide_eq_true hlt, decide_eq_true (by omega),
        show k - 1 - j + 1 = k + 1 - 1 - j by omega]
    · rw [if_neg (lt_irrefl j), Nat.sub_self, decide_eq_true (Nat.lt_succ_self j), Bool.true_and,
        Nat.add_sub_cancel, Nat.sub_self, Nat.testBit_zero, Nat.testBit_zero, Nat.mod_mod]
    · obtain ⟨d, hd⟩ : ∃ d, j - k = d + 1 := ⟨j - k - 1, by omega⟩
      rw [if_neg (by omega), decide_eq_false (by omega), Bool.false_and, hd, Nat.testBit_succ,
        Nat.div_eq_of_lt (Nat.mod_lt _ two_pos), Nat.zero_testBit]

theorem rev_rev {k n : ℕ} (hn : n < 2 ^ k) : rev k (rev k n) = n := by
  refine Nat.eq_of_testBit_eq fun j => ?_
  rw [testBit_rev, testBit_rev]
  by_cases hj : j < k
  · rw [decide_eq_true hj, decide_eq_true (by omega), Bool.true_and, Bool.true_and,
      show k - 1 - (k - 1 - j) = j by omega]
  · rw [decide_eq_false hj, Bool.false_and,
      Nat.testBit_lt_two_pow (hn.trans_le (Nat.pow_le_pow_right two_pos (not_lt.mp hj)))]

@[simp] theorem rev_zero_right (k : ℕ) : rev k 0 = 0 := by
  induction k with
  | zero => rfl
  | succ k ih => rw [rev, Nat.zero_mod, Nat.zero_div, ih, Nat.mul_zero]

theorem rev_two_mul (k b : ℕ) : rev (k + 1) (2 * b) = rev k b := by
  rw [rev, Nat.mul_mod_right, Nat.mul_div_cancel_left b two_pos, Nat.mul_zero, Nat.zero_add]

theorem rev_two_mul_add_one (k b : ℕ) : rev (k + 1) (2 * b + 1) = 2 ^ k + rev k b := by
  rw [rev, Nat.mul_add_mod, Nat.mul_add_div two_pos]
  simp

/-! ### Roots -/

/-- Roots of unity of order `2 ^ r`, each the square of the next. -/
structure RootTower (K : Type*) [CommRing K] where
  root : ℕ → K
  root_one : root 1 = -1
  sq : ∀ r, root (r + 1) ^ 2 = root r

section
variable {K : Type*} [CommRing K] (ω : RootTower K)

theorem RootTower.root_add_pow (r s : ℕ) : ω.root (r + s) ^ 2 ^ s = ω.root r := by
  induction s with
  | zero => rw [pow_zero, pow_one, Nat.add_zero]
  | succ s ih => rw [pow_succ', pow_mul, ← Nat.add_assoc, ω.sq, ih]

theorem RootTower.root_succ_half (r : ℕ) : ω.root (r + 1) ^ 2 ^ r = -1 := by
  rw [Nat.add_comm, ω.root_add_pow, ω.root_one]

theorem RootTower.root_pow_order (r : ℕ) : ω.root r ^ 2 ^ r = 1 := by
  have h := ω.root_add_pow 0 r
  rw [Nat.zero_add] at h
  rw [h, ← ω.sq 0, ω.root_one, neg_one_sq]

/-- All powers of a root at `d` sum to zero, unless they are all one. -/
theorem RootTower.sum_root_pow (k d : ℕ) :
    ∑ n ∈ range (2 ^ k), ω.root k ^ (n * d) = if 2 ^ k ∣ d then ((2 ^ k : ℕ) : K) else 0 := by
  induction k generalizing d with
  | zero => simp
  | succ k ih =>
    have hpow : 2 ^ (k + 1) = 2 ^ k + 2 ^ k := by rw [pow_succ, Nat.mul_two]
    rw [hpow, sum_range_add]
    rcases Nat.even_or_odd' d with ⟨e, rfl | rfl⟩
    · -- an even multiple: twice the sum of the shorter transform
      have hsq : ∀ n, ω.root (k + 1) ^ (n * (2 * e)) = ω.root k ^ (n * e) := by
        intro n
        rw [show n * (2 * e) = 2 * (n * e) by ring, pow_mul, ω.sq]
      have hwrap : ∀ n, ω.root k ^ ((2 ^ k + n) * e) = ω.root k ^ (n * e) := by
        intro n
        rw [Nat.add_mul, pow_add, pow_mul, ω.root_pow_order, one_pow, one_mul]
      simp only [hsq, hwrap, ih, ← Nat.two_mul, Nat.mul_dvd_mul_iff_left two_pos]
      split
      · push_cast
        ring
      · exact add_zero 0
    · -- an odd one: the two halves cancel
      have hneg : ∀ n, ω.root (k + 1) ^ ((2 ^ k + n) * (2 * e + 1))
          = -ω.root (k + 1) ^ (n * (2 * e + 1)) := by
        intro n
        rw [Nat.add_mul, pow_add, pow_mul, ω.root_succ_half, Odd.neg_one_pow ⟨e, rfl⟩, neg_one_mul]
      have hodd : ¬ 2 ^ k + 2 ^ k ∣ 2 * e + 1 := by
        intro h
        have htwo : 2 ∣ 2 * e + 1 := (Dvd.intro _ (Nat.two_mul _)).trans h
        omega
      simp only [hneg]
      rw [if_neg hodd, ← sum_add_distrib]
      exact sum_eq_zero fun n _ => add_neg_cancel _

/-! ### The transform -/

/-- Entries of even and of odd index. -/
theorem sum_range_two_mul {M : Type*} [AddCommMonoid M] (f : ℕ → M) (m : ℕ) :
    ∑ t ∈ range (2 * m), f t = ∑ u ∈ range m, f (2 * u) + ∑ u ∈ range m, f (2 * u + 1) := by
  induction m with
  | zero => simp
  | succ m ih =>
    rw [Nat.mul_succ, sum_range_succ, sum_range_succ, ih, sum_range_succ, sum_range_succ]
    abel

/-- The transform of `2 ^ r` values. -/
def dft (r : ℕ) (a : ℕ → K) (n : ℕ) : K :=
  ∑ t ∈ range (2 ^ r), ω.root r ^ (n * t) * a t

theorem dft_zero (a : ℕ → K) (n : ℕ) : dft ω 0 a n = a 0 := by
  simp [dft]

theorem dft_congr {r : ℕ} {a b : ℕ → K} (h : ∀ t < 2 ^ r, a t = b t) (n : ℕ) :
    dft ω r a n = dft ω r b n :=
  sum_congr rfl fun t ht => by rw [h t (mem_range.mp ht)]

theorem dft_add_order (r : ℕ) (a : ℕ → K) (n : ℕ) : dft ω r a (n + 2 ^ r) = dft ω r a n := by
  refine sum_congr rfl fun t _ => ?_
  rw [Nat.add_mul, pow_add, pow_mul _ (2 ^ r), ω.root_pow_order, one_pow, mul_one]

theorem dft_succ (r : ℕ) (a : ℕ → K) (n : ℕ) :
    dft ω (r + 1) a n = dft ω r (fun u => a (2 * u)) n +
      ω.root (r + 1) ^ n * dft ω r (fun u => a (2 * u + 1)) n := by
  have heven : ∀ u, ω.root (r + 1) ^ (n * (2 * u)) = ω.root r ^ (n * u) := by
    intro u
    rw [show n * (2 * u) = 2 * (n * u) by ring, pow_mul, ω.sq]
  rw [dft, pow_succ', sum_range_two_mul, dft, dft, mul_sum]
  congr 1
  · exact sum_congr rfl fun u _ => by rw [heven]
  · refine sum_congr rfl fun u _ => ?_
    rw [Nat.mul_add, Nat.mul_one, pow_add, heven]
    ring

theorem dft_succ_add (r : ℕ) (a : ℕ → K) (n : ℕ) :
    dft ω (r + 1) a (n + 2 ^ r) = dft ω r (fun u => a (2 * u)) n -
      ω.root (r + 1) ^ n * dft ω r (fun u => a (2 * u + 1)) n := by
  rw [dft_succ, dft_add_order, dft_add_order, pow_add, ω.root_succ_half]
  ring

/-! ### The stages of an in-place transform -/

/-- After the stages up to `2 ^ r` each block holds the transform of one of the `2 ^ m` residue
classes of the input, the classes in bit-reversed order. -/
def Staged (m r : ℕ) (a x : ℕ → K) : Prop :=
  ∀ b < 2 ^ m, ∀ n < 2 ^ r, x (b * 2 ^ r + n) = dft ω r (fun t => a (rev m b + 2 ^ m * t)) n

/-- The input in bit-reversed order. -/
theorem Staged.start {k : ℕ} {a x : ℕ → K} (h : ∀ n < 2 ^ k, x n = a (rev k n)) :
    Staged ω k 0 a x := by
  intro b hb n hn
  rw [Nat.lt_one_iff.mp hn, pow_zero, Nat.mul_one, Nat.add_zero, dft_zero, Nat.mul_zero,
    Nat.add_zero]
  exact h b hb

theorem Staged.finish {k : ℕ} {a x : ℕ → K} (h : Staged ω 0 k a x) :
    ∀ n < 2 ^ k, x n = dft ω k a n := by
  intro n hn
  have hblock := h 0 Nat.one_pos n hn
  simp only [Nat.zero_mul, Nat.zero_add, rev, pow_zero, Nat.one_mul] at hblock
  exact hblock

/-- **One stage**: the butterflies of two neighbouring blocks. -/
theorem Staged.butterfly {m r : ℕ} {a x y : ℕ → K} (h : Staged ω (m + 1) r a x)
    (hlow : ∀ b < 2 ^ m, ∀ n < 2 ^ r, y (b * 2 ^ (r + 1) + n)
      = x (b * 2 ^ (r + 1) + n) + ω.root (r + 1) ^ n * x (b * 2 ^ (r + 1) + 2 ^ r + n))
    (hhigh : ∀ b < 2 ^ m, ∀ n < 2 ^ r, y (b * 2 ^ (r + 1) + 2 ^ r + n)
      = x (b * 2 ^ (r + 1) + n) - ω.root (r + 1) ^ n * x (b * 2 ^ (r + 1) + 2 ^ r + n)) :
    Staged ω m (r + 1) a y := by
  intro b hb n hn
  have heven : ∀ n < 2 ^ r, x (b * 2 ^ (r + 1) + n)
      = dft ω r (fun t => a (rev m b + 2 ^ m * (2 * t))) n := by
    intro n hn
    have hblock := h (2 * b) (by rw [pow_succ']; omega) n hn
    rw [rev_two_mul, show 2 * b * 2 ^ r = b * 2 ^ (r + 1) by ring] at hblock
    rw [hblock]
    refine congrArg (dft ω r · n) (funext fun t => congrArg a ?_)
    ring
  have hodd : ∀ n < 2 ^ r, x (b * 2 ^ (r + 1) + 2 ^ r + n)
      = dft ω r (fun t => a (rev m b + 2 ^ m * (2 * t + 1))) n := by
    intro n hn
    have hblock := h (2 * b + 1) (by rw [pow_succ']; omega) n hn
    rw [rev_two_mul_add_one, show (2 * b + 1) * 2 ^ r = b * 2 ^ (r + 1) + 2 ^ r by ring] at hblock
    rw [hblock]
    refine congrArg (dft ω r · n) (funext fun t => congrArg a ?_)
    ring
  by_cases hn' : n < 2 ^ r
  · rw [hlow b hb n hn', heven n hn', hodd n hn', dft_succ]
  · obtain ⟨j, rfl⟩ := Nat.exists_eq_add_of_le (not_lt.mp hn')
    have hj : j < 2 ^ r := by rw [pow_succ] at hn; omega
    rw [← Nat.add_assoc, hhigh b hb j hj, heven j hj, hodd j hj, Nat.add_comm (2 ^ r) j,
      dft_succ_add]

end

/-! ### Convolution -/

section
variable {K : Type*} [CommRing K] {ω ω' : RootTower K}

/-- **The transform of a product**, by the inverse roots, is the circular convolution times the
length. -/
theorem dft_inverse_mul (k : ℕ) (hinv : ω.root k * ω'.root k = 1) (x y : ℕ → K) {p : ℕ}
    (hp : p < 2 ^ k) :
    dft ω' k (fun n => dft ω k x n * dft ω k y n) p
      = (2 ^ k : ℕ) * ∑ t ∈ range (2 ^ k), ∑ s ∈ range (2 ^ k),
          if 2 ^ k ∣ s + t + (2 ^ k - p) then x s * y t else 0 := by
  have hroot : ∀ n, ω'.root k ^ (p * n) = ω.root k ^ (n * (2 ^ k - p)) := by
    intro n
    have hwhole : ω.root k ^ (n * (2 ^ k - p)) * ω.root k ^ (p * n) = 1 := by
      rw [← pow_add, show n * (2 ^ k - p) + p * n = 2 ^ k * n by
        rw [Nat.mul_comm p, ← Nat.mul_add, Nat.sub_add_cancel hp.le, Nat.mul_comm], pow_mul,
        ω.root_pow_order, one_pow]
    have hcancel : ω.root k ^ (p * n) * ω'.root k ^ (p * n) = 1 := by
      rw [← mul_pow, hinv, one_pow]
    linear_combination (-ω'.root k ^ (p * n)) * hwhole + ω.root k ^ (n * (2 ^ k - p)) * hcancel
  have hterm : ∀ n, ω'.root k ^ (p * n) * (dft ω k x n * dft ω k y n)
      = ∑ t ∈ range (2 ^ k), ∑ s ∈ range (2 ^ k),
          x s * y t * ω.root k ^ (n * (s + t + (2 ^ k - p))) := by
    intro n
    rw [hroot, dft, dft, sum_mul_sum, sum_comm, mul_sum]
    refine sum_congr rfl fun t _ => ?_
    rw [mul_sum]
    refine sum_congr rfl fun s _ => ?_
    rw [Nat.mul_add, Nat.mul_add, pow_add, pow_add]
    ring
  rw [dft]
  simp only [hterm]
  rw [sum_comm, mul_sum]
  refine sum_congr rfl fun t _ => ?_
  rw [sum_comm, mul_sum]
  refine sum_congr rfl fun s _ => ?_
  rw [← mul_sum, ω.sum_root_pow]
  split <;> ring

/-- **No wrap-around**: where `x` and `y` together are not longer than the transform, a place behind
the length of `y` holds the linear convolution. -/
theorem dft_inverse_mul_linear {k a b : ℕ} (hinv : ω.root k * ω'.root k = 1) {x y : ℕ → K}
    (hx : ∀ s, a ≤ s → x s = 0) (hy : ∀ t, b ≤ t → y t = 0) (hab : a + b ≤ 2 ^ k + 1) {p : ℕ}
    (hbp : b ≤ p + 1) (hp : p < 2 ^ k) :
    dft ω' k (fun n => dft ω k x n * dft ω k y n) p
      = (2 ^ k : ℕ) * ∑ t ∈ range b, x (p - t) * y t := by
  rw [dft_inverse_mul k hinv x y hp]
  congr 1
  have hzero : ∀ t ∈ range (2 ^ k), t ∉ range b → ∑ s ∈ range (2 ^ k),
      (if 2 ^ k ∣ s + t + (2 ^ k - p) then x s * y t else 0) = 0 := by
    intro t _ ht
    refine sum_eq_zero fun s _ => ?_
    rw [hy t (not_lt.mp (mt mem_range.mpr ht)), mul_zero, ite_self]
  have hb : b ≤ 2 ^ k := by omega
  rw [← sum_subset (range_mono hb) hzero]
  refine sum_congr rfl fun t ht => ?_
  have ht' := mem_range.mp ht
  rw [sum_eq_single (p - t)]
  · rw [if_pos ⟨1, by omega⟩]
  · intro s _ hne
    by_cases hs : a ≤ s
    · rw [hx s hs, zero_mul, ite_self]
    · rw [if_neg]
      rintro ⟨c, hc⟩
      -- a multiple of the length between one and two lengths is the length
      have hc1 : c = 1 := by
        have hpos : 0 < 2 ^ k * c := by omega
        have hlt : 2 ^ k * c < 2 ^ k * 2 := by omega
        have := Nat.pos_of_mul_pos_left hpos
        have := Nat.lt_of_mul_lt_mul_left hlt
        omega
      rw [hc1] at hc
      omega
  · intro hmem
    exact absurd (mem_range.mpr (by omega)) hmem

end

end Radix2

end OpenVlsnr
