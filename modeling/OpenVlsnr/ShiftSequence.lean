import OpenVlsnr.Gf2Pattern
import Mathlib.FieldTheory.IsAlgClosed.AlgebraicClosure

/-!
# Sequences of a linear shift register

A sequence `s` over a ring of characteristic two, and the sums of its entries at the positions
that a bit pattern marks (`tapSum`).  When `s` obeys the recurrence of a defining polynomial
(`Recurrent`), multiplying a pattern by the root moves the sum on by one position, so the pattern
of the `k`-th power reads `k` positions ahead (`tapSum_expPattern`).

If the polynomial is primitive, a power is found by squaring (`expPattern_eq_powPattern`), the
sequence has period `2 ^ m - 1` (`Recurrent.mod_period`), and a window of `m` entries tells the
position within the period (`Recurrent.window_position`).
-/

namespace OpenVlsnr

open Finset

/-! ### Sums over taps -/

section Taps
variable {R : Type*} [CommRing R]

/-- The sum of the entries `s (i + j)` over the bits `j` of `v`. -/
def tapSum (s : ℕ → R) (v i : ℕ) : R := ∑ j ∈ range v.size, bitVal R (v.testBit j) * s (i + j)

theorem tapSum_eq_sum (s : ℕ → R) {v w : ℕ} (h : v < 2 ^ w) (i : ℕ) :
    tapSum s v i = ∑ j ∈ range w, bitVal R (v.testBit j) * s (i + j) := by
  refine Finset.sum_subset (range_subset_range.mpr (Nat.size_le.mpr h)) ?_
  intro j _ hj
  have hsize : v < 2 ^ j := Nat.size_le.mp (not_lt.mp fun hlt => hj (mem_range.mpr hlt))
  rw [Nat.testBit_lt_two_pow hsize, bitVal, if_neg Bool.false_ne_true, zero_mul]

theorem tapSum_two_pow (s : ℕ → R) (k i : ℕ) : tapSum s (2 ^ k) i = s (i + k) := by
  rw [tapSum_eq_sum s (Nat.pow_lt_pow_right (by decide) (Nat.lt_succ_self k)),
    Finset.sum_eq_single k]
  · simp [bitVal]
  · intro j _ hj
    rw [Nat.testBit_two_pow_of_ne (Ne.symm hj), bitVal, if_neg Bool.false_ne_true, zero_mul]
  · intro h
    exact absurd (mem_range.mpr (Nat.lt_succ_self k)) h

/-- A shifted pattern reads one position later. -/
theorem tapSum_shiftLeft_one (s : ℕ → R) (v i : ℕ) :
    tapSum s (v <<< 1) i = tapSum s v (i + 1) := by
  have hv : v < 2 ^ v.size := Nat.size_le.mp le_rfl
  have hs : v <<< 1 < 2 ^ (v.size + 1) := by
    rw [Nat.shiftLeft_eq, pow_one, pow_succ]
    omega
  have hlow : (v <<< 1).testBit 0 = false := by simp
  rw [tapSum_eq_sum s hs, tapSum_eq_sum s hv, Finset.sum_range_succ', hlow, bitVal,
    if_neg Bool.false_ne_true, zero_mul, add_zero]
  refine Finset.sum_congr rfl fun j _ => ?_
  have hbit : (v <<< 1).testBit (j + 1) = v.testBit j := by
    rw [Nat.testBit_shiftLeft]
    simp
  rw [hbit, Nat.add_right_comm, Nat.add_assoc]

/-- The sum of two sequences. -/
theorem tapSum_add (s t : ℕ → R) (v i : ℕ) :
    tapSum (fun j => s j + t j) v i = tapSum s v i + tapSum t v i := by
  simp only [tapSum, mul_add, Finset.sum_add_distrib]

/-- A delayed sequence. -/
theorem tapSum_delay (s : ℕ → R) (a v i : ℕ) :
    tapSum (fun j => s (j + a)) v i = tapSum s v (i + a) := by
  unfold tapSum
  refine Finset.sum_congr rfl fun j _ => ?_
  rw [Nat.add_right_comm]

variable [CharP R 2]

theorem tapSum_xor (s : ℕ → R) (v w i : ℕ) :
    tapSum s (v ^^^ w) i = tapSum s v i + tapSum s w i := by
  have hv : v < 2 ^ (max v.size w.size) := Nat.size_le.mp (le_max_left _ _)
  have hw : w < 2 ^ (max v.size w.size) := Nat.size_le.mp (le_max_right _ _)
  rw [tapSum_eq_sum s hv, tapSum_eq_sum s hw, tapSum_eq_sum s (Nat.xor_lt_two_pow hv hw),
    ← Finset.sum_add_distrib]
  refine Finset.sum_congr rfl fun j _ => ?_
  rw [Nat.testBit_xor, bitVal_xor, add_mul]

/-! ### Recurrences -/

/-- The recurrence whose characteristic polynomial is `poly`. -/
def Recurrent (poly : ℕ) (s : ℕ → R) : Prop := ∀ i, tapSum s poly i = 0

variable {s : ℕ → R} {m poly : ℕ}

theorem Recurrent.tapSum_mulX (hs : Recurrent poly s) (v i : ℕ) :
    tapSum s (mulX m poly v) i = tapSum s v (i + 1) := by
  unfold mulX
  dsimp only
  split
  · rw [tapSum_xor, hs i, add_zero, tapSum_shiftLeft_one]
  · exact tapSum_shiftLeft_one s v i

/-- The taps below the degree compute the next entry. -/
theorem Recurrent.feedback {taps : ℕ} (hs : Recurrent (2 ^ m ^^^ taps) s) (i : ℕ) :
    tapSum s taps i = s (i + m) := by
  have h := hs i
  rw [tapSum_xor, tapSum_two_pow] at h
  exact (CharTwo.add_eq_zero.mp h).symm

/-- **Reading ahead**: the pattern of the `k`-th power of the root. -/
theorem Recurrent.tapSum_expPattern (hs : Recurrent poly s) (k i : ℕ) :
    tapSum s (expPattern m poly k) i = s (i + k) := by
  unfold expPattern
  induction k generalizing i with
  | zero => exact tapSum_two_pow s 0 i
  | succ k ih => rw [Function.iterate_succ_apply', hs.tapSum_mulX, ih, Nat.add_right_comm,
      Nat.add_assoc]

omit [CharP R 2] in
/-- A recurrence of degree `m` computes an entry from the `m` before it. -/
theorem Recurrent.eq_zero (hp : DefiningPoly m poly) (hs : Recurrent poly s)
    (hwindow : ∀ j < m, s j = 0) (i : ℕ) : s i = 0 := by
  induction i using Nat.strong_induction_on with
  | _ i ih =>
    obtain hlt | ⟨k, rfl⟩ := lt_or_ge i m |>.imp_right Nat.exists_eq_add_of_le'
    · exact hwindow i hlt
    · have h := hs k
      rw [tapSum_eq_sum s hp.lt, Finset.sum_range_succ, hp.top, bitVal, if_pos rfl, one_mul,
        Finset.sum_eq_zero, zero_add] at h
      · exact h
      · intro j hj
        rw [ih (k + j) (Nat.add_lt_add_left (mem_range.mp hj) k), mul_zero]

end Taps

/-! ### Primitive polynomials -/

section Primitive
variable {m poly : ℕ} (hc : PrimitiveCert m poly)
include hc

theorem exists_primitive_root : ∃ α : AlgebraicClosure (ZMod 2),
    evalBits α poly = 0 ∧ orderOf α = 2 ^ m - 1 := by
  obtain ⟨α, hroot⟩ :=
    exists_evalBits_eq_zero (F := AlgebraicClosure (ZMod 2)) hc.toDefiningPoly
  exact ⟨α, hroot, orderOf_of_cert hc hroot⟩

/-- The pattern of a power, by squaring. -/
theorem expPattern_eq_powPattern {k : ℕ} (hk : k < 2 ^ m) :
    expPattern m poly k = powPattern m poly 2 m k := by
  obtain ⟨α, hroot, hord⟩ := exists_primitive_root hc
  have hp := hc.toDefiningPoly
  have htwo : 2 < 2 ^ m := by
    calc 2 = 2 ^ 1 := rfl
      _ < 2 ^ m := Nat.pow_lt_pow_right (by decide) hp.pos
  refine evalBits_injOn hp hroot hord (expPattern_lt hp k) (powPattern_lt hp m k) ?_
  rw [evalBits_expPattern hroot, evalBits_powPattern hp hroot htwo m k hk, evalBits_two]

theorem expPattern_eq_iff {a b : ℕ} :
    expPattern m poly a = expPattern m poly b ↔ a ≡ b [MOD 2 ^ m - 1] := by
  obtain ⟨α, hroot, hord⟩ := exists_primitive_root hc
  have hp := hc.toDefiningPoly
  have hfin : IsOfFinOrder α := by
    have : 1 < 2 ^ m := Nat.one_lt_two_pow (by have := hp.pos; omega)
    refine orderOf_pos_iff.mp ?_
    omega
  rw [← hord, ← hfin.pow_eq_pow_iff_modEq]
  constructor
  · intro h
    rw [← evalBits_expPattern (m := m) hroot, h, evalBits_expPattern hroot]
  · intro h
    refine evalBits_injOn hp hroot hord (expPattern_lt hp a) (expPattern_lt hp b) ?_
    rw [evalBits_expPattern hroot, h, evalBits_expPattern hroot]

section Sequence
variable {R : Type*} [CommRing R] [CharP R 2] {s : ℕ → R} (hs : Recurrent poly s)
include hs

/-- **The period.** -/
theorem Recurrent.eq_of_modEq {a b : ℕ} (h : a ≡ b [MOD 2 ^ m - 1]) : s a = s b := by
  have hpattern := (expPattern_eq_iff hc).mpr h
  rw [← Nat.zero_add a, ← Nat.zero_add b, ← hs.tapSum_expPattern (m := m), hpattern,
    hs.tapSum_expPattern]

theorem Recurrent.mod_period (i : ℕ) : s (i % (2 ^ m - 1)) = s i :=
  hs.eq_of_modEq hc (Nat.mod_modEq _ _)

/-- **A window tells the position** within the period, in a sequence that is not zero. -/
theorem Recurrent.window_position (hne : ∃ i, s i ≠ 0) {a b : ℕ}
    (hwindow : ∀ j < m, s (a + j) = s (b + j)) : a ≡ b [MOD 2 ^ m - 1] := by
  obtain ⟨α, hroot, hord⟩ := exists_primitive_root hc
  have hp := hc.toDefiningPoly
  set v := expPattern m poly a ^^^ expPattern m poly b with hv
  have hvlt : v < 2 ^ m := Nat.xor_lt_two_pow (expPattern_lt hp a) (expPattern_lt hp b)
  have hsum : ∀ j, tapSum s v j = s (j + a) + s (j + b) := fun j => by
    rw [hv, tapSum_xor, hs.tapSum_expPattern, hs.tapSum_expPattern]
  -- the difference of the two delayed sequences obeys the recurrence and starts with zeros
  have hdiff : ∀ j, tapSum s v j = 0 := by
    have hrec : Recurrent poly fun j => s (j + a) + s (j + b) := fun i => by
      rw [tapSum_add, tapSum_delay, tapSum_delay, hs, hs, add_zero]
    intro j
    rw [hsum]
    refine hrec.eq_zero hp (fun i hi => ?_) j
    rw [Nat.add_comm i a, Nat.add_comm i b, hwindow i hi, CharTwo.add_self_eq_zero]
  -- a pattern that is not zero is a power, and would read the whole sequence as zero
  have hzero : v = 0 := by
    by_contra hvne
    obtain ⟨k, -, hk⟩ := exists_expPattern hp hroot hord (Nat.pos_of_ne_zero hvne) hvlt
    obtain ⟨i, hi⟩ := hne
    have hperiod : 0 < 2 ^ m - 1 := by
      have : 1 < 2 ^ m := Nat.one_lt_two_pow (by have := hp.pos; omega)
      omega
    have hle : k ≤ k * (2 ^ m - 1) := Nat.le_mul_of_pos_right k hperiod
    have hread := hdiff (i + (k * (2 ^ m - 1) - k))
    rw [← hk, hs.tapSum_expPattern, Nat.add_assoc, Nat.sub_add_cancel hle] at hread
    have hmod : i + k * (2 ^ m - 1) ≡ i [MOD 2 ^ m - 1] := Nat.add_mul_mod_self_right i k _
    exact hi ((hs.eq_of_modEq hc hmod).symm.trans hread)
  exact (expPattern_eq_iff hc).mp (Nat.xor_eq_zero_iff.mp hzero)

end Sequence

end Primitive

end OpenVlsnr
