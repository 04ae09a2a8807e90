import OpenVlsnr.BinaryMinpoly
import OpenVlsnr.ListGetD

/-!
# Bit lists as binary polynomials

A list of bits is a polynomial over `ZMod 2` in two ways: constant coefficient first
(`coefPoly`), as a register holds it, and leading coefficient first (`wordPoly`), as a word is
sent.
-/

namespace OpenVlsnr

open Polynomial Finset

/-- The polynomial whose coefficient of `X ^ i` is entry `i`. -/
noncomputable def coefPoly (l : List Bool) : (ZMod 2)[X] :=
  ∑ i ∈ range l.length, C (bitVal (ZMod 2) (l.getD i false)) * X ^ i

/-- The polynomial whose leading coefficient comes first. -/
noncomputable def wordPoly (w : List Bool) : (ZMod 2)[X] := coefPoly w.reverse

theorem coefPoly_coeff (l : List Bool) (i : ℕ) :
    (coefPoly l).coeff i = bitVal (ZMod 2) (l.getD i false) := by
  simp only [coefPoly, finsetSum_coeff, coeff_C_mul, coeff_X_pow]
  by_cases hi : i < l.length
  · rw [Finset.sum_eq_single i]
    · rw [if_pos rfl, mul_one]
    · intro j _ hj
      rw [if_neg (Ne.symm hj), mul_zero]
    · intro h
      exact absurd (mem_range.mpr hi) h
  · rw [Finset.sum_eq_zero]
    · rw [List.getD_eq_getElem?_getD, List.getElem?_eq_none (not_lt.mp hi), Option.getD_none]
      rfl
    · intro j hj
      have := mem_range.mp hj
      rw [if_neg (by omega), mul_zero]

theorem coefPoly_ext {l l' : List Bool} (h : ∀ i, l.getD i false = l'.getD i false) :
    coefPoly l = coefPoly l' := by
  ext i
  rw [coefPoly_coeff, coefPoly_coeff, h]

theorem bitVal_injective {a b : Bool} (h : bitVal (ZMod 2) a = bitVal (ZMod 2) b) : a = b := by
  revert h
  cases a <;> cases b <;> decide

theorem getD_of_coefPoly_eq {l l' : List Bool} (h : coefPoly l = coefPoly l') (i : ℕ) :
    l.getD i false = l'.getD i false := by
  refine bitVal_injective ?_
  rw [← coefPoly_coeff, ← coefPoly_coeff, h]

theorem coefPoly_cons (b : Bool) (l : List Bool) :
    coefPoly (b :: l) = C (bitVal (ZMod 2) b) + X * coefPoly l := by
  ext i
  cases i with
  | zero => simp [coefPoly_coeff]
  | succ i => simp [coefPoly_coeff, coeff_X_mul, coeff_C_succ]

theorem coefPoly_append (l l' : List Bool) :
    coefPoly (l ++ l') = coefPoly l + X ^ l.length * coefPoly l' := by
  induction l with
  | nil => simp [coefPoly]
  | cons b l ih =>
    rw [List.cons_append, coefPoly_cons, coefPoly_cons, ih, List.length_cons, pow_succ]
    ring

theorem coefPoly_replicate_false (n : ℕ) : coefPoly (List.replicate n false) = 0 := by
  ext i
  rw [coefPoly_coeff, coeff_zero, getD_replicate_self]
  rfl

theorem getD_modify_not (l : List Bool) (k i : ℕ) (hk : k < l.length) :
    (l.modify k not).getD i false = (l.getD i false ^^ decide (i = k)) := by
  rw [getD_modify _ _ hk]
  by_cases hik : i = k
  · simp [hik]
  · simp [hik, Ne.symm hik]

/-- Flipping a bit adds a monomial. -/
theorem coefPoly_modify_not (l : List Bool) (k : ℕ) (hk : k < l.length) :
    coefPoly (l.modify k not) = coefPoly l + X ^ k := by
  ext i
  rw [coeff_add, coefPoly_coeff, coefPoly_coeff, coeff_X_pow, getD_modify_not l k i hk, bitVal_xor]
  congr 1
  by_cases hik : i = k
  · simp [hik, bitVal]
  · simp [hik, bitVal]

theorem wordPoly_append (u v : List Bool) :
    wordPoly (u ++ v) = wordPoly u * X ^ v.length + wordPoly v := by
  rw [wordPoly, List.reverse_append, coefPoly_append, List.length_reverse]
  rw [wordPoly, wordPoly]
  ring

theorem wordPoly_singleton (b : Bool) : wordPoly [b] = C (bitVal (ZMod 2) b) := by
  rw [wordPoly, List.reverse_singleton, coefPoly_cons]
  simp [coefPoly]

section
variable {F : Type*} [Field F] [Algebra (ZMod 2) F]

theorem algebraMap_bitVal (b : Bool) :
    algebraMap (ZMod 2) F (bitVal (ZMod 2) b) = bitVal F b := by
  cases b <;> simp [bitVal]

theorem aeval_coefPoly (x : F) (l : List Bool) :
    aeval x (coefPoly l) = ∑ i ∈ range l.length, bitVal F (l.getD i false) * x ^ i := by
  rw [coefPoly, map_sum]
  refine Finset.sum_congr rfl fun i _ => ?_
  rw [map_mul, aeval_C, algebraMap_bitVal, map_pow, aeval_X]

/-- A word evaluated: its first bit goes with the highest power. -/
theorem aeval_wordPoly (x : F) (w : List Bool) :
    aeval x (wordPoly w)
      = ∑ j ∈ range w.length, bitVal F (w.getD j false) * x ^ (w.length - 1 - j) := by
  rw [wordPoly, aeval_coefPoly, List.length_reverse, ← Finset.sum_range_reflect]
  refine Finset.sum_congr rfl fun j hj => ?_
  have hj := mem_range.mp hj
  rw [List.getD_eq_getElem?_getD, List.getElem?_reverse (by omega),
    show w.length - 1 - (w.length - 1 - j) = j by omega, ← List.getD_eq_getElem?_getD]

end

end OpenVlsnr
