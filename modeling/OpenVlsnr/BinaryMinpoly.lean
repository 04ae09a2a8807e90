import OpenVlsnr.Gf2Pattern
import Mathlib.FieldTheory.Minpoly.Field
import Mathlib.Algebra.Polynomial.Lifts
import Mathlib.RingTheory.Polynomial.Basic
import Mathlib.RingTheory.Coprime.Lemmas
import Mathlib.Algebra.CharP.Frobenius
import Mathlib.Algebra.Field.ZMod

/-!
# Minimal polynomials over the binary field

A bit pattern is also a polynomial with coefficients in `ZMod 2` (`patternPoly`), and every
such polynomial is one (`exists_pattern`).  The pattern of least degree that vanishes at `β` is
the minimal polynomial (`IsMinPattern.minpoly_eq`).  Its roots are the conjugates `β ^ 2 ^ s`
(`exists_conj_of_root`), and a product of different minimal polynomials divides exactly the
polynomials that vanish at all the elements (`prod_minpoly_dvd_iff`).
-/

namespace OpenVlsnr

open Polynomial Finset

/-! ### Patterns as binary polynomials -/

/-- The polynomial with the bits of `v` as coefficients. -/
noncomputable def patternPoly (v : ℕ) : (ZMod 2)[X] := evalBits X v

theorem patternPoly_xor (v w : ℕ) : patternPoly (v ^^^ w) = patternPoly v + patternPoly w :=
  evalBits_xor X v w

theorem patternPoly_coeff (v i : ℕ) : (patternPoly v).coeff i = bitVal (ZMod 2) (v.testBit i) := by
  have hv : v < 2 ^ (max v.size (i + 1)) := Nat.size_le.mp (le_max_left _ _)
  rw [patternPoly, evalBits_eq_sum X hv, finsetSum_coeff, Finset.sum_eq_single i]
  · cases v.testBit i <;> simp [bitVal]
  · intro j _ hj
    cases v.testBit j <;> simp [bitVal, coeff_X_pow, Ne.symm hj]
  · intro h
    exact absurd (mem_range.mpr (lt_of_lt_of_le (Nat.lt_succ_self i) (le_max_right _ _))) h

theorem bitVal_zmod_eq_zero (b : Bool) : bitVal (ZMod 2) b = 0 ↔ b = false := by
  cases b <;> decide

theorem patternPoly_eq_zero_iff (v : ℕ) : patternPoly v = 0 ↔ v = 0 := by
  constructor
  · intro h
    refine Nat.eq_of_testBit_eq fun i => ?_
    have hc := patternPoly_coeff v i
    rw [h, coeff_zero] at hc
    rw [(bitVal_zmod_eq_zero _).mp hc.symm, Nat.zero_testBit]
  · rintro rfl
    exact evalBits_zero X

/-- Every binary polynomial of degree below `d` is a pattern below `2 ^ d`. -/
theorem exists_pattern (d : ℕ) (q : (ZMod 2)[X]) (hq : ∀ i, d ≤ i → q.coeff i = 0) :
    ∃ v < 2 ^ d, patternPoly v = q := by
  induction d generalizing q with
  | zero =>
    refine ⟨0, Nat.one_pos, ?_⟩
    ext i
    rw [hq i (Nat.zero_le i), patternPoly_coeff, Nat.zero_testBit]
    rfl
  | succ d ih =>
    rcases Fin.exists_fin_two.mp ⟨q.coeff d, rfl⟩ with h0 | h1
    · obtain ⟨v, hv, rfl⟩ := ih q fun i hi => by
        rcases Nat.eq_or_lt_of_le hi with rfl | hlt
        · exact h0
        · exact hq i hlt
      exact ⟨v, hv.trans (Nat.pow_lt_pow_right (by decide) (Nat.lt_succ_self d)), rfl⟩
    · obtain ⟨v, hv, hvq⟩ := ih (q + X ^ d) fun i hi => by
        rw [coeff_add, coeff_X_pow]
        rcases Nat.eq_or_lt_of_le hi with rfl | hlt
        · rw [if_pos rfl, h1]
          decide
        · rw [if_neg (by omega), hq i hlt, add_zero]
      refine ⟨v ^^^ 2 ^ d, Nat.xor_lt_two_pow
        (hv.trans (Nat.pow_lt_pow_right (by decide) (Nat.lt_succ_self d)))
        (Nat.pow_lt_pow_right (by decide) (Nat.lt_succ_self d)), ?_⟩
      rw [patternPoly_xor, hvq, patternPoly, evalBits_two_pow, add_assoc, CharTwo.add_self_eq_zero,
        add_zero]

section
variable {F : Type*} [Field F] [Algebra (ZMod 2) F] {β : F} {d r : ℕ}

theorem aeval_patternPoly (β : F) (v : ℕ) : aeval β (patternPoly v) = evalBits β v := by
  rw [patternPoly, evalBits, evalBits, map_sum]
  refine Finset.sum_congr rfl fun i _ => ?_
  cases v.testBit i <;> simp [bitVal]

/-- `r`, of degree `d`, vanishes at `β`, and no pattern of smaller degree does. -/
structure IsMinPattern (β : F) (d r : ℕ) : Prop where
  top : r.testBit d = true
  lt : r < 2 ^ (d + 1)
  root : evalBits β r = 0
  least : ∀ v, 0 < v → v < 2 ^ d → evalBits β v ≠ 0

omit [Algebra (ZMod 2) F] in
theorem IsMinPattern.natDegree (h : IsMinPattern β d r) : (patternPoly r).natDegree = d := by
  refine natDegree_eq_of_le_of_coeff_ne_zero ?_ ?_
  · refine natDegree_le_iff_coeff_eq_zero.mpr fun i hi => ?_
    rw [patternPoly_coeff, Nat.testBit_lt_two_pow
      (lt_of_lt_of_le h.lt (Nat.pow_le_pow_right (by decide) hi))]
    rfl
  · rw [patternPoly_coeff, h.top]
    exact one_ne_zero

omit [Algebra (ZMod 2) F] in
theorem IsMinPattern.monic (h : IsMinPattern β d r) : (patternPoly r).Monic := by
  rw [Monic, leadingCoeff, h.natDegree, patternPoly_coeff, h.top]
  rfl

/-- **The pattern of least degree is the minimal polynomial.** -/
theorem IsMinPattern.minpoly_eq (h : IsMinPattern β d r) :
    patternPoly r = minpoly (ZMod 2) β := by
  refine minpoly.unique (ZMod 2) β h.monic (by rw [aeval_patternPoly, h.root]) ?_
  intro q hq hroot
  by_contra hlt
  rw [not_le, degree_eq_natDegree hq.ne_zero, degree_eq_natDegree h.monic.ne_zero, h.natDegree,
    Nat.cast_lt] at hlt
  obtain ⟨v, hv, hvq⟩ := exists_pattern d q fun i hi =>
    coeff_eq_zero_of_natDegree_lt (lt_of_lt_of_le hlt hi)
  rw [← hvq, aeval_patternPoly] at hroot
  refine h.least v (Nat.pos_of_ne_zero fun hz => ?_) hv hroot
  exact hq.ne_zero (by rw [← hvq, hz, patternPoly_eq_zero_iff])

theorem IsMinPattern.isIntegral (h : IsMinPattern β d r) : IsIntegral (ZMod 2) β :=
  ⟨patternPoly r, h.monic, by
    have := aeval_patternPoly β r
    rw [h.root, aeval_def] at this
    exact this⟩

/-! ### Conjugates -/

/-- A binary polynomial takes squares to squares. -/
theorem aeval_sq (f : (ZMod 2)[X]) (x : F) : aeval (x ^ 2) f = aeval x f ^ 2 := by
  rw [← map_pow, ← ZMod.expand_card, expand_aeval]

theorem aeval_pow_two_pow (f : (ZMod 2)[X]) (x : F) (s : ℕ) :
    aeval (x ^ 2 ^ s) f = aeval x f ^ 2 ^ s := by
  induction s with
  | zero => rw [pow_zero, pow_one, pow_one]
  | succ s ih => rw [pow_succ, pow_mul, aeval_sq, ih, ← pow_mul]

/-- An element fixed by squaring is a bit. -/
theorem mem_range_of_sq_eq {x : F} (h : x ^ 2 = x) : x ∈ Set.range (algebraMap (ZMod 2) F) := by
  have hmul : x * (x - 1) = 0 := by rw [mul_sub, ← sq, h, mul_one, sub_self]
  rcases mul_eq_zero.mp hmul with h0 | h1
  · exact ⟨0, by rw [map_zero, h0]⟩
  · exact ⟨1, by rw [map_one, sub_eq_zero.mp h1]⟩

variable [CharP F 2]

/-- The product over the conjugates has binary coefficients: squaring the coefficients only
rotates the factors. -/
theorem exists_conj_product (hd : β ^ 2 ^ d = β) :
    ∃ q : (ZMod 2)[X], q.map (algebraMap (ZMod 2) F)
      = ∏ s ∈ range d, (X - C (β ^ 2 ^ s)) := by
  have hfix : (∏ s ∈ range d, (X - C (β ^ 2 ^ s))).map (frobenius F 2)
      = ∏ s ∈ range d, (X - C (β ^ 2 ^ s)) := by
    have hstep : ∀ s, (X - C (β ^ 2 ^ s)).map (frobenius F 2) = X - C (β ^ 2 ^ (s + 1)) := by
      intro s
      rw [Polynomial.map_sub, map_X, map_C, frobenius_def, ← pow_mul, ← pow_succ]
    have hrot := (Finset.prod_range_succ' (fun s => X - C (β ^ 2 ^ s)) d).symm.trans
      (Finset.prod_range_succ (fun s => X - C (β ^ 2 ^ s)) d)
    rw [hd, pow_zero, pow_one] at hrot
    rw [Polynomial.map_prod, Finset.prod_congr rfl fun s _ => hstep s]
    exact mul_right_cancel₀ (X_sub_C_ne_zero β) hrot
  refine (mem_lifts _).mp ((lifts_iff_coeff_lifts _).mpr fun i => mem_range_of_sq_eq ?_)
  rw [← frobenius_def, ← coeff_map, hfix]

/-- **The roots of a minimal polynomial are the conjugates.** -/
theorem exists_conj_of_root (hd : β ^ 2 ^ d = β) {x : F}
    (hx : aeval x (minpoly (ZMod 2) β) = 0) (hpos : 0 < d) : ∃ s < d, x = β ^ 2 ^ s := by
  obtain ⟨q, hq⟩ := exists_conj_product hd
  have heval : ∀ y : F, aeval y q = ∏ s ∈ range d, (y - β ^ 2 ^ s) := by
    intro y
    rw [← eval_map_algebraMap, hq, eval_prod]
    simp
  have hβ : aeval β q = 0 := by
    rw [heval, Finset.prod_eq_zero (mem_range.mpr hpos)]
    rw [pow_zero, pow_one, sub_self]
  obtain ⟨f, rfl⟩ := minpoly.dvd (ZMod 2) β hβ
  have hxq := heval x
  rw [map_mul, hx, zero_mul] at hxq
  obtain ⟨s, hs, hzero⟩ := Finset.prod_eq_zero_iff.mp hxq.symm
  exact ⟨s, mem_range.mp hs, sub_eq_zero.mp hzero⟩

/-! ### Products of minimal polynomials -/

omit [CharP F 2] in
theorem isCoprime_minpoly {x y : F} (hx : IsIntegral (ZMod 2) x) (hy : IsIntegral (ZMod 2) y)
    (hne : minpoly (ZMod 2) x ≠ minpoly (ZMod 2) y) :
    IsCoprime (minpoly (ZMod 2) x) (minpoly (ZMod 2) y) := by
  refine (Irreducible.coprime_iff_not_dvd (minpoly.irreducible hx)).mpr fun hdvd => hne ?_
  exact eq_of_monic_of_associated (minpoly.monic hx) (minpoly.monic hy)
    ((minpoly.irreducible hx).associated_of_dvd (minpoly.irreducible hy) hdvd)

omit [CharP F 2] in
/-- **Divisibility by a product of different minimal polynomials.** -/
theorem prod_minpoly_dvd_iff {ι : Type*} (T : Finset ι) (β : ι → F)
    (hint : ∀ i ∈ T, IsIntegral (ZMod 2) (β i))
    (hne : ∀ i ∈ T, ∀ j ∈ T, i ≠ j → minpoly (ZMod 2) (β i) ≠ minpoly (ZMod 2) (β j))
    (f : (ZMod 2)[X]) :
    (∏ i ∈ T, minpoly (ZMod 2) (β i)) ∣ f ↔ ∀ i ∈ T, aeval (β i) f = 0 := by
  constructor
  · intro hdvd i hi
    obtain ⟨g, rfl⟩ := (Finset.dvd_prod_of_mem _ hi).trans hdvd
    rw [map_mul, minpoly.aeval, zero_mul]
  · intro h
    refine Finset.prod_dvd_of_coprime ?_ fun i hi => minpoly.dvd (ZMod 2) (β i) (h i hi)
    intro i hi j hj hij
    exact isCoprime_minpoly (hint i hi) (hint j hj) (hne i hi j hj hij)

end

end OpenVlsnr
