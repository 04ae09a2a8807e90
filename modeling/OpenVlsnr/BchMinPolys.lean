import OpenVlsnr.BchCode

/-!
# The minimal polynomials of the encoder

`compute_min_poly` returns the minimal polynomial of every power of a primitive element, in any
field of degree 16 or less, and the generator polynomial is the product of the different minimal
polynomials of `α, ..., α ^ (2 * t)`, each taken once (`computeMinPoly_exact`).
-/

namespace OpenVlsnr

open Polynomial Finset

open Classical in
/-- The product of the different minimal polynomials of `α, ..., α ^ K`. -/
noncomputable def minpolyProduct {F : Type*} [Field F] [Algebra (ZMod 2) F] (α : F) (K : ℕ) :
    (ZMod 2)[X] :=
  ∏ p ∈ (Icc 1 K).image fun k => minpoly (ZMod 2) (α ^ k), p

section
variable {F : Type*} [Field F] [CharP F 2] [Algebra (ZMod 2) F] {α : F} {m n : ℕ}

omit [CharP F 2] in
/-- Conjugates have one minimal polynomial. -/
theorem minpoly_pow_two_pow {x : F} (hx : IsIntegral (ZMod 2) x) (s : ℕ) :
    minpoly (ZMod 2) (x ^ 2 ^ s) = minpoly (ZMod 2) x := by
  refine (minpoly.eq_of_irreducible_of_monic (minpoly.irreducible hx) ?_ (minpoly.monic hx)).symm
  rw [aeval_pow_two_pow, minpoly.aeval, zero_pow (Nat.two_pow_pos s).ne']

omit [CharP F 2] in
/-- **The loop has multiplied each minimal polynomial once.** -/
theorem GenAt.eq_minpolyProduct {K : ℕ} {T : Finset ℕ} {s : GenPoly} (h : GenAt α m n K T s)
    (hord : orderOf α = 2 ^ m - 1) (hn : n = 2 ^ m - 1) (hK : ∀ k ∈ T, 1 ≤ k) :
    coefPoly s.genPoly = minpolyProduct α K := by
  classical
  have himage : (Icc 1 K).image (fun k => minpoly (ZMod 2) (α ^ k))
      = T.image fun k => minpoly (ZMod 2) (α ^ k) := by
    ext p
    simp only [mem_image, mem_Icc]
    constructor
    · rintro ⟨k, ⟨hpos, hle⟩, rfl⟩
      obtain ⟨k', hk', hconj⟩ := h.cover k hpos hle
      obtain ⟨i, hi⟩ := hconj.pow_eq hord hn
      exact ⟨k', hk', by rw [hi, minpoly_pow_two_pow (h.integral k' hk')]⟩
    · rintro ⟨k, hk, rfl⟩
      exact ⟨k, ⟨hK k hk, (h.sub k hk).1⟩, rfl⟩
  rw [minpolyProduct, himage, h.poly, prod_image]
  intro k hk k' hk' heq
  by_contra hne
  exact h.distinct k hk k' hk' hne heq

end

/-- The state before the loop over the roots. -/
def genPolyStart : GenPoly :=
  ⟨Array.replicate 65536 false, true :: List.replicate bchMaxParity false, 0⟩

section
variable {F : Type*} [Field F] [CharP F 2] [Algebra (ZMod 2) F] {α : F} {m poly : ℕ}

/-- **The loop over the roots** ends and has multiplied each minimal polynomial once. -/
theorem genPolyLoop_exact (hp : DefiningPoly m poly) (hm : m ≤ 16) (hroot : evalBits α poly = 0)
    (hord : orderOf α = 2 ^ m - 1) {t : ℕ} (ht : t ≤ 12) :
    ∃ s, ((List.range (2 * t)).map (· + 1)).foldlM
        (genPolyStep m (2 ^ m - 1) (bchExpTable m poly (2 ^ m - 1))) genPolyStart = some s ∧
      coefPoly s.genPoly = minpolyProduct α (2 * t) ∧
      s.genDeg = (minpolyProduct α (2 * t)).natDegree := by
  obtain ⟨T, s, hrun, hs⟩ := genPolyLoop_spec hp hm hroot hord rfl
    (bchExpTable_getD (n := 2 ^ m - 1)) (2 * t) (by omega)
  have hpos : ∀ k ∈ T, 1 ≤ k := fun k hk => by
    have := (hs.sub k hk).2
    omega
  have hprod := hs.eq_minpolyProduct hord rfl hpos
  exact ⟨s, hrun, hprod, by rw [← hs.natDegree, hprod]⟩

/-- **`compute_min_poly` is exact.**  For every primitive polynomial of degree 16 or less and its
table of powers: for every exponent the elimination ends before its fallback, with the minimal
polynomial of the power and its degree.  So the loop over the roots ends as well, and the generator
is the product of the different minimal polynomials, each taken once; the encoders of the MODCODs
are cases of that. -/
theorem computeMinPoly_exact (hm : m ≤ 16) (htop : poly.testBit m = true)
    (hlt : poly < 2 ^ (m + 1)) (hroot : evalBits α poly = 0) (hord : orderOf α = 2 ^ m - 1) :
    (∀ k, 1 ≤ k → k < 2 ^ m - 1 →
      ∃ r d, minPolyLoop m (minPolyPowers m k (bchExpTable m poly (2 ^ m - 1)) (2 ^ m - 1))
          (List.range (m + 1)) ⟨List.replicate 17 0, List.replicate 17 0⟩ = some (r, d) ∧
        computeMinPoly m k (bchExpTable m poly (2 ^ m - 1)) (2 ^ m - 1) = (r, d) ∧
        r < 2 ^ (d + 1) ∧ patternPoly r = minpoly (ZMod 2) (α ^ k) ∧
        d = (minpoly (ZMod 2) (α ^ k)).natDegree) ∧
      (1 < m → ∀ t ≤ 12, ∃ s, ((List.range (2 * t)).map (· + 1)).foldlM
          (genPolyStep m (2 ^ m - 1) (bchExpTable m poly (2 ^ m - 1))) genPolyStart = some s ∧
        coefPoly s.genPoly = minpolyProduct α (2 * t) ∧
        s.genDeg = (minpolyProduct α (2 * t)).natDegree) ∧
      ∀ mc ∈ vlsnrModcodTable, gfOrder mc.frameType = m → gfPrimPolys m = poly →
        ∃ enc, bchEncoderInit mc = some (0, enc) ∧
          coefPoly enc.genPoly = minpolyProduct α (2 * mc.bchT) := by
  refine ⟨fun k hk hkn => ?_, fun hpos t ht => ?_, fun mc hmc hgf hpoly => ?_⟩
  · have hpos : 1 < m := by
      by_contra hle
      have hsmall : 2 ^ m ≤ 2 ^ 1 := Nat.pow_le_pow_right (by decide) (not_lt.mp hle)
      omega
    obtain ⟨r, d, hloop, hcompute, -, hr⟩ := computeMinPoly_spec ⟨hpos, htop, hlt⟩ hm hroot hord
      bchExpTable_getD k
    exact ⟨r, d, hloop, hcompute, hr.lt, hr.minpoly_eq, by rw [← hr.minpoly_eq, hr.natDegree]⟩
  · exact genPolyLoop_exact ⟨hpos, htop, hlt⟩ hm hroot hord ht
  · subst hgf hpoly
    have hp := (gfPrimPolys_cert (gfOrder_cases mc.frameType)).toDefiningPoly
    obtain ⟨-, -, ht, -⟩ := modcod_bch mc hmc
    obtain ⟨s, hrun, hprod, -⟩ := genPolyLoop_exact hp hm hroot hord (t := mc.bchT) (by omega)
    obtain ⟨enc, hinit, -⟩ := bchEncoderInit_spec hmc hroot hord
    have hstate := bchEncoderInit_of_run hrun
    rw [hinit] at hstate
    obtain ⟨-, rfl⟩ := Prod.ext_iff.mp (Option.some.inj hstate)
    exact ⟨_, hinit, hprod⟩

end

/-- The third power of the root that encoder and decoder of short frames share. -/
theorem computeMinPoly_exact_short :
    ∃ α : AlgebraicClosure (ZMod 2), evalBits α (gfPrimPolys 14) = 0 ∧
      ∃ r d,
        computeMinPoly 14 3 (bchExpTable 14 (gfPrimPolys 14) (2 ^ 14 - 1)) (2 ^ 14 - 1) = (r, d) ∧
        patternPoly r = minpoly (ZMod 2) (α ^ 3) := by
  have hm : 14 = 14 ∨ 14 = 15 ∨ 14 = 16 := Or.inl rfl
  obtain ⟨α, hroot, hord⟩ := exists_bchRoot hm
  have hp := (gfPrimPolys_cert hm).toDefiningPoly
  obtain ⟨hmin, -⟩ := computeMinPoly_exact (by decide) hp.top hp.lt hroot hord
  obtain ⟨r, d, -, hcompute, -, hpoly, -⟩ := hmin 3 (by decide) (by decide)
  exact ⟨α, hroot, r, d, hcompute, hpoly⟩

end OpenVlsnr
