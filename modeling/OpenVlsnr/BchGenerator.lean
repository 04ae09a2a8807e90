import OpenVlsnr.MinPoly
import OpenVlsnr.BitPoly

/-!
# The generator polynomial and the encoder

The loop of `dvbs2x_bch_encoder_init` keeps the product of the minimal polynomials of the roots
taken so far, whose conjugates are exactly the marked exponents (`GenAt`).  For the codes of the
nine MODCODs the roots taken are the twelve odd ones, each with `m` conjugates, so the product
has the degree `parity_len` and divides exactly the words that vanish at `α, ..., α ^ 24`
(`bchEncoderInit_spec`).  `bchEncode_dvd` is the shift register: what it appends to the message
makes the word a multiple of the generator.
-/

namespace OpenVlsnr

open Polynomial Finset

/-! ### Multiplying binary polynomials -/

/-- The inner loop adds a shifted copy of the packed polynomial. -/
theorem gf2PolyAddShifted_spec {b degB : ℕ} (hb : b < 2 ^ (degB + 1)) (temp : List Bool) (i : ℕ)
    (hi : i + degB < temp.length) :
    (gf2PolyAddShifted b degB temp i).length = temp.length ∧
      coefPoly (gf2PolyAddShifted b degB temp i) = coefPoly temp + X ^ i * patternPoly b := by
  have key : ∀ c ≤ degB + 1, ∃ t, (List.range c).foldl
        (fun temp j => if b.testBit j then temp.modify (i + j) not else temp) temp = t ∧
      t.length = temp.length ∧
      coefPoly t = coefPoly temp
        + X ^ i * ∑ j ∈ range c, bitVal (ZMod 2)[X] (b.testBit j) * X ^ j := by
    intro c
    induction c with
    | zero => exact fun _ => ⟨temp, rfl, rfl, by simp⟩
    | succ c ih =>
      intro hc
      obtain ⟨t, hrun, hlen, hpoly⟩ := ih (by omega)
      rw [List.range_succ, List.foldl_append, List.foldl_cons, List.foldl_nil, hrun,
        Finset.sum_range_succ]
      cases b.testBit c with
      | true =>
        refine ⟨_, rfl, by rw [if_pos rfl, List.length_modify, hlen], ?_⟩
        rw [if_pos rfl, coefPoly_modify_not t _ (by omega), hpoly, bitVal, if_pos rfl]
        ring
      | false =>
        refine ⟨_, rfl, by rw [if_neg Bool.false_ne_true, hlen], ?_⟩
        rw [if_neg Bool.false_ne_true, hpoly, bitVal, if_neg Bool.false_ne_true]
        ring
  obtain ⟨t, hrun, hlen, hpoly⟩ := key (degB + 1) le_rfl
  rw [gf2PolyAddShifted, hrun, patternPoly, evalBits_eq_sum X hb]
  exact ⟨hlen, hpoly⟩

/-- The whole product, accumulated in `temp`. -/
theorem gf2PolyMul_temp {a : List Bool} {degA b degB : ℕ} (hb : b < 2 ^ (degB + 1))
    (hdeg : degA + degB ≤ bchMaxParity) (c : ℕ) (hc : c ≤ degA + 1) :
    ∃ t, (List.range c).foldl
        (fun temp i => if a.getD i false then gf2PolyAddShifted b degB temp i else temp)
        (List.replicate (bchMaxParity + 1) false) = t ∧
      t.length = bchMaxParity + 1 ∧
      coefPoly t = (∑ i ∈ range c, C (bitVal (ZMod 2) (a.getD i false)) * X ^ i)
        * patternPoly b := by
  induction c with
  | zero =>
    refine ⟨_, rfl, List.length_replicate, ?_⟩
    rw [List.range_zero, List.foldl_nil, coefPoly_replicate_false, range_zero, Finset.sum_empty,
      zero_mul]
  | succ c ih =>
    obtain ⟨t, hrun, hlen, hpoly⟩ := ih (by omega)
    rw [List.range_succ, List.foldl_append, List.foldl_cons, List.foldl_nil, hrun,
      Finset.sum_range_succ]
    cases a.getD c false with
    | true =>
      obtain ⟨h₁, h₂⟩ := gf2PolyAddShifted_spec hb t c (by rw [hlen]; omega)
      refine ⟨_, rfl, by rw [if_pos rfl, h₁, hlen], ?_⟩
      rw [if_pos rfl, h₂, hpoly, bitVal, if_pos rfl, C_1, one_mul]
      ring
    | false =>
      refine ⟨_, rfl, by rw [if_neg Bool.false_ne_true, hlen], ?_⟩
      rw [if_neg Bool.false_ne_true, hpoly, bitVal, if_neg Bool.false_ne_true, C_0, zero_mul,
        add_zero]

/-- A bit list of the degree of its polynomial. -/
theorem coefPoly_eq_sum_of_natDegree {a : List Bool} {degA : ℕ}
    (ha : (coefPoly a).natDegree ≤ degA) :
    coefPoly a = ∑ i ∈ range (degA + 1), C (bitVal (ZMod 2) (a.getD i false)) * X ^ i := by
  rw [Polynomial.as_sum_range_C_mul_X_pow' (coefPoly a) (Nat.lt_succ_of_le ha)]
  exact Finset.sum_congr rfl fun i _ => by rw [coefPoly_coeff]

theorem getD_of_natDegree_lt {l : List Bool} {i : ℕ} (h : (coefPoly l).natDegree < i) :
    l.getD i false = false := by
  refine (bitVal_zmod_eq_zero _).mp ?_
  rw [← coefPoly_coeff, coeff_eq_zero_of_natDegree_lt h]

/-- **`gf2_poly_mul` multiplies in place.** -/
theorem gf2PolyMul_spec {a : List Bool} {degA b degB : ℕ} (hlen : a.length = bchMaxParity + 1)
    (ha : (coefPoly a).natDegree ≤ degA) (hb : b < 2 ^ (degB + 1))
    (hdeg : degA + degB ≤ bchMaxParity) :
    (gf2PolyMul a a degA b degB).1.length = bchMaxParity + 1 ∧
      coefPoly (gf2PolyMul a a degA b degB).1 = coefPoly a * patternPoly b ∧
      (gf2PolyMul a a degA b degB).2 = degA + degB := by
  obtain ⟨t, hrun, htlen, hpoly⟩ := gf2PolyMul_temp (a := a) hb hdeg (degA + 1) le_rfl
  rw [← coefPoly_eq_sum_of_natDegree ha] at hpoly
  have hdegree : (coefPoly t).natDegree ≤ degA + degB := by
    rw [hpoly]
    refine (natDegree_mul_le).trans (Nat.add_le_add ha ?_)
    refine natDegree_le_iff_coeff_eq_zero.mpr fun i hi => ?_
    rw [patternPoly_coeff, Nat.testBit_lt_two_pow
      (lt_of_lt_of_le hb (Nat.pow_le_pow_right (by decide) hi))]
    rfl
  unfold gf2PolyMul
  dsimp only
  rw [hrun]
  refine ⟨?_, ?_, rfl⟩
  · rw [List.length_append, List.length_take, List.length_drop, htlen, hlen]
    omega
  · rw [← hpoly]
    refine coefPoly_ext fun i => ?_
    simp only [List.getD_eq_getElem?_getD]
    rcases Nat.lt_or_ge i (degA + degB + 1) with hlt | hge
    · rw [List.getElem?_append_left (by rw [List.length_take, htlen]; omega),
        List.getElem?_take, if_pos hlt]
    · rw [List.getElem?_append_right (by rw [List.length_take]; omega), List.getElem?_drop,
        List.length_take, htlen, show degA + degB + 1 + (i - min (degA + degB + 1)
          (bchMaxParity + 1)) = i by omega, ← List.getD_eq_getElem?_getD,
        ← List.getD_eq_getElem?_getD, getD_of_natDegree_lt (by omega),
        getD_of_natDegree_lt (by omega)]

/-! ### Marking conjugates -/

/-- `j` is the exponent of a conjugate of `α ^ k`. -/
def IsConj (n k j : ℕ) : Prop := ∃ i, j = k * 2 ^ i % n

section
variable {m n : ℕ} (hn : n = 2 ^ m - 1) (hm : 1 < m)
include hn hm

theorem odd_order : Odd n := by
  refine Nat.odd_iff.mpr ?_
  obtain ⟨c, rfl⟩ : ∃ c, m = c + 1 := ⟨m - 1, by omega⟩
  rw [hn, pow_succ]
  have := Nat.two_pow_pos c
  omega

/-- `m` doublings lead back. -/
theorem mul_two_pow_mod (k i : ℕ) : k * 2 ^ (i * m) % n = k % n := by
  have hone : 2 ^ m ≡ 1 [MOD n] := by
    have hlt : 2 ^ 1 < 2 ^ m := Nat.pow_lt_pow_right (by decide) hm
    have h : 2 ^ m = 1 + n := by omega
    rw [h, Nat.ModEq, Nat.add_mod_right]
  have hpow : 2 ^ (i * m) ≡ 1 [MOD n] := by
    rw [Nat.mul_comm, pow_mul]
    have := hone.pow i
    rwa [one_pow] at this
  have := Nat.ModEq.mul_left k hpow
  rwa [mul_one] at this

/-- Being conjugate is symmetric. -/
theorem IsConj.symm {k j : ℕ} (h : IsConj n k j) : IsConj n j (k % n) := by
  obtain ⟨i, rfl⟩ := h
  refine ⟨i * (m - 1), ?_⟩
  rw [Nat.mod_mul_mod, mul_assoc, ← pow_add, show i + i * (m - 1) = i * m by
    obtain ⟨c, rfl⟩ : ∃ c, m = c + 1 := ⟨m - 1, by omega⟩
    rw [Nat.add_sub_cancel, Nat.mul_succ, Nat.add_comm], mul_two_pow_mod hn hm]

omit hn hm in
theorem IsConj.trans {k j l : ℕ} (h : IsConj n k j) (h' : IsConj n j l) : IsConj n k l := by
  obtain ⟨i, rfl⟩ := h
  obtain ⟨i', rfl⟩ := h'
  exact ⟨i + i', by rw [Nat.mod_mul_mod, mul_assoc, ← pow_add]⟩

/-- **The marking loop** ends, and what it has marked are the conjugates.  Induction on the
conjugates still to come before the first one returns. -/
theorem markConjugates_spec {k p : ℕ} (hp : 0 < p) (hcycle : k * 2 ^ p % n = k % n)
    (hleast : ∀ i, 0 < i → i < p → k * 2 ^ i % n ≠ k % n) {visited₀ : Array Bool}
    (hfree : ∀ j, IsConj n k j → visited₀.getD j false = false) (c : ℕ) :
    ∀ s fuel visited, s + c = p → c < fuel → n ≤ visited.size →
      (∀ j, visited.getD j false = true ↔
        visited₀.getD j false = true ∨ ∃ i < s, j = k * 2 ^ i % n) →
      ∃ v, markConjugates n fuel (k * 2 ^ s % n) visited = some v ∧ v.size = visited.size ∧
        ∀ j, v.getD j false = true ↔
          visited₀.getD j false = true ∨ ∃ i < p, j = k * 2 ^ i % n := by
  have hn0 : 0 < n := by
    have hlt : 2 ^ 1 < 2 ^ m := Nat.pow_lt_pow_right (by decide) hm
    omega
  induction c with
  | zero =>
    intro s fuel visited hs hfuel _ hv
    obtain ⟨fuel, rfl⟩ : ∃ f, fuel = f + 1 := ⟨fuel - 1, by omega⟩
    obtain rfl : s = p := by omega
    have hdone : visited.getD (k * 2 ^ s % n) false = true :=
      (hv _).mpr (Or.inr ⟨0, hp, by rw [hcycle, pow_zero, mul_one]⟩)
    exact ⟨visited, by rw [markConjugates, if_pos hdone], rfl, hv⟩
  | succ c ih =>
    intro s fuel visited hs hfuel hsize hv
    obtain ⟨fuel, rfl⟩ : ∃ f, fuel = f + 1 := ⟨fuel - 1, by omega⟩
    have hlt : k * 2 ^ s % n < n := Nat.mod_lt _ hn0
    -- a repetition would be an earlier return to `k`
    have hnew : ¬ visited.getD (k * 2 ^ s % n) false = true := by
      rw [hv]
      rintro (h | ⟨i, hi, heq⟩)
      · rw [hfree _ ⟨s, rfl⟩] at h
        exact Bool.false_ne_true h
      · refine hleast (s - i) (by omega) (by omega) ?_
        have hmul : 2 ^ i * (k * 2 ^ (s - i)) ≡ 2 ^ i * k [MOD n] := by
          have h₁ : 2 ^ i * (k * 2 ^ (s - i)) = k * 2 ^ s := by
            rw [← Nat.sub_add_cancel hi.le, pow_add, Nat.add_sub_cancel]
            ring
          rw [h₁, Nat.mul_comm (2 ^ i) k]
          exact heq
        refine Nat.ModEq.cancel_left_of_coprime ?_ hmul
        exact Nat.Coprime.pow_right i (Nat.coprime_two_right.mpr (odd_order hn hm))
    rw [markConjugates, if_neg hnew, Nat.mod_mul_mod, mul_assoc, ← pow_succ]
    obtain ⟨v, hrun, hvsize, hvspec⟩ := ih (s + 1) fuel
      (visited.setIfInBounds (k * 2 ^ s % n) true) (by omega) (by omega)
      (by rw [Array.size_setIfInBounds]; exact hsize) (fun j => by
        rw [getD_setIfInBounds _ _ _ _ _ (lt_of_lt_of_le hlt hsize)]
        by_cases hj : j = k * 2 ^ s % n
        · rw [if_pos hj]
          exact iff_of_true rfl (Or.inr ⟨s, Nat.lt_succ_self s, hj⟩)
        · rw [if_neg hj, hv]
          refine or_congr Iff.rfl ⟨?_, ?_⟩
          · rintro ⟨i, hi, rfl⟩
            exact ⟨i, by omega, rfl⟩
          · rintro ⟨i, hi, rfl⟩
            refine ⟨i, ?_, rfl⟩
            rcases Nat.lt_succ_iff_lt_or_eq.mp hi with h | rfl
            · exact h
            · exact absurd rfl hj)
    exact ⟨v, hrun, by rw [hvsize, Array.size_setIfInBounds], hvspec⟩

/-- **All conjugates get marked**, and only they. -/
theorem markConjugates_all {k : ℕ} {visited₀ : Array Bool} (hsize : n ≤ visited₀.size)
    (hfree : ∀ j, IsConj n k j → visited₀.getD j false = false) :
    ∃ v, markConjugates n (n + 1) (k % n) visited₀ = some v ∧ v.size = visited₀.size ∧
      ∀ j, v.getD j false = true ↔ visited₀.getD j false = true ∨ IsConj n k j := by
  classical
  have hex : ∃ p, 0 < p ∧ k * 2 ^ p % n = k % n :=
    ⟨m, by omega, by simpa using mul_two_pow_mod hn hm k 1⟩
  obtain ⟨hp, hcycle⟩ := Nat.find_spec hex
  set p := Nat.find hex with hpdef
  have hpm : p ≤ m := Nat.find_min' hex ⟨by omega, by simpa using mul_two_pow_mod hn hm k 1⟩
  have hleast : ∀ i, 0 < i → i < p → k * 2 ^ i % n ≠ k % n :=
    fun i hi hip heq => Nat.find_min hex hip ⟨hi, heq⟩
  have hmn : m < n + 1 := by
    have := Nat.lt_two_pow_self (n := m)
    omega
  obtain ⟨v, hrun, hvsize, hv⟩ := markConjugates_spec hn hm hp hcycle hleast hfree p 0 (n + 1)
    visited₀ (by omega) (by omega) hsize (fun j => by simp)
  rw [pow_zero, mul_one] at hrun
  refine ⟨v, hrun, hvsize, fun j => ?_⟩
  rw [hv]
  refine or_congr Iff.rfl ⟨fun ⟨i, _, h⟩ => ⟨i, h⟩, ?_⟩
  rintro ⟨i, rfl⟩
  -- exponents wrap around after `p` doublings
  induction i using Nat.strong_induction_on with
  | _ i ih =>
    rcases Nat.lt_or_ge i p with hlt | hge
    · exact ⟨i, hlt, rfl⟩
    · obtain ⟨i', hi', heq⟩ := ih (i - p) (by omega)
      refine ⟨i', hi', heq ▸ ?_⟩
      rw [← Nat.add_sub_cancel' hge, pow_add, ← mul_assoc, ← Nat.mod_mul_mod, hcycle,
        Nat.mod_mul_mod, Nat.add_sub_cancel_left]

end

/-! ### The loop over the roots -/

section
variable {F : Type*} [Field F] [CharP F 2] [Algebra (ZMod 2) F] {α : F} {m n poly : ℕ}

/-- The loop once the roots `α, ..., α ^ K` have been visited, those in `T` having been
multiplied in. -/
structure GenAt (α : F) (m n K : ℕ) (T : Finset ℕ) (s : GenPoly) : Prop where
  size : s.visited.size = 65536
  visited_iff : ∀ j, s.visited.getD j false = true ↔ ∃ k ∈ T, IsConj n k j
  len : s.genPoly.length = bchMaxParity + 1
  poly : coefPoly s.genPoly = ∏ k ∈ T, minpoly (ZMod 2) (α ^ k)
  deg : s.genDeg = ∑ k ∈ T, (minpoly (ZMod 2) (α ^ k)).natDegree
  deg_le : ∀ k ∈ T, (minpoly (ZMod 2) (α ^ k)).natDegree ≤ m
  integral : ∀ k ∈ T, IsIntegral (ZMod 2) (α ^ k)
  sub : ∀ k ∈ T, k ≤ K ∧ k % 2 = 1
  cover : ∀ k, 1 ≤ k → k ≤ K → ∃ k' ∈ T, IsConj n k' (k % n)
  distinct : ∀ k ∈ T, ∀ k' ∈ T, k ≠ k' →
    minpoly (ZMod 2) (α ^ k) ≠ minpoly (ZMod 2) (α ^ k')

omit [CharP F 2] in
theorem GenAt.natDegree {K : ℕ} {T : Finset ℕ} {s : GenPoly} (h : GenAt α m n K T s) :
    (coefPoly s.genPoly).natDegree = s.genDeg := by
  rw [h.poly, h.deg]
  exact natDegree_prod_of_monic _ _ fun k hk => minpoly.monic (h.integral k hk)

/-- Odd numbers up to `K`. -/
theorem card_odd_le {K : ℕ} {T : Finset ℕ} (h : ∀ k ∈ T, k ≤ K ∧ k % 2 = 1) :
    2 * #T ≤ K + 1 := by
  have hinj : Set.InjOn (fun k : ℕ => k / 2) T := by
    intro a ha b hb hab
    have h₁ := (h a ha).2
    have h₂ := (h b hb).2
    simp only at hab
    omega
  have hsub : T.image (fun k => k / 2) ⊆ range ((K + 1) / 2) := by
    intro x hx
    obtain ⟨k, hk, rfl⟩ := mem_image.mp hx
    have := h k hk
    exact mem_range.mpr (by omega)
  have hcard := card_le_card hsub
  rw [card_image_of_injOn hinj, card_range] at hcard
  omega

section
variable {K : ℕ} {T : Finset ℕ} {s : GenPoly}

omit [CharP F 2] in
theorem GenAt.sub_succ (h : GenAt α m n K T s) {k : ℕ} (hk : k ∈ T) : k ≤ K + 1 ∧ k % 2 = 1 :=
  ⟨(h.sub k hk).1.trans (Nat.le_succ K), (h.sub k hk).2⟩

omit [CharP F 2] in
theorem GenAt.succ_notMem (h : GenAt α m n K T s) : K + 1 ∉ T :=
  fun hmem => Nat.not_succ_le_self K (h.sub _ hmem).1

omit [CharP F 2] in
/-- A root whose conjugate has been taken changes nothing. -/
theorem GenAt.skip (h : GenAt α m n K T s) (hlast : ∃ k' ∈ T, IsConj n k' ((K + 1) % n)) :
    GenAt α m n (K + 1) T s := by
  refine { h with sub := fun k hk => h.sub_succ hk, cover := fun k hk hkK => ?_ }
  rcases Nat.lt_succ_iff_lt_or_eq.mp (Nat.lt_succ_of_le hkK) with hlt | rfl
  · exact h.cover k hk (by omega)
  · exact hlast

omit [CharP F 2] in
/-- An even root is a conjugate of its half, so a new one is odd. -/
theorem GenAt.odd_of_new (h : GenAt α m n K T s) (hnew : ∀ k ∈ T, ¬ IsConj n k ((K + 1) % n)) :
    (K + 1) % 2 = 1 := by
  by_contra heven
  obtain ⟨k, hk, hc⟩ := h.cover ((K + 1) / 2) (by omega) (by omega)
  refine hnew k hk (hc.trans ⟨1, ?_⟩)
  rw [Nat.mod_mul_mod, pow_one, Nat.div_mul_cancel (by omega)]

omit [CharP F 2] in
/-- Twelve odd roots of degree 16 at most fit in the array. -/
theorem GenAt.genDeg_add_le (h : GenAt α m n K T s) (hm : m ≤ 16) (hK : K + 1 ≤ 24)
    (hodd : (K + 1) % 2 = 1) {d : ℕ} (hd : d ≤ m) : s.genDeg + d ≤ bchMaxParity := by
  have hsum : s.genDeg ≤ #T * m := by
    rw [h.deg]
    exact Finset.sum_le_card_nsmul _ _ _ h.deg_le
  have hcard := card_odd_le (K := K + 1) (T := insert (K + 1) T) fun k hk => by
    rcases mem_insert.mp hk with rfl | hk
    · exact ⟨le_rfl, hodd⟩
    · exact h.sub_succ hk
  rw [card_insert_of_notMem h.succ_notMem] at hcard
  have hle : #T * m ≤ 11 * 16 := Nat.mul_le_mul (by omega) hm
  simp only [bchMaxParity]
  omega

omit [CharP F 2] in
/-- A new root, multiplied in. -/
theorem GenAt.insert (h : GenAt α m n K T s) (hodd : (K + 1) % 2 = 1) {s' : GenPoly}
    (hsize : s'.visited.size = 65536)
    (hvisited : ∀ j, s'.visited.getD j false = true ↔
      s.visited.getD j false = true ∨ IsConj n (K + 1) j)
    (hlen : s'.genPoly.length = bchMaxParity + 1)
    (hpoly : coefPoly s'.genPoly = coefPoly s.genPoly * minpoly (ZMod 2) (α ^ (K + 1)))
    (hdeg : s'.genDeg = s.genDeg + (minpoly (ZMod 2) (α ^ (K + 1))).natDegree)
    (hle : (minpoly (ZMod 2) (α ^ (K + 1))).natDegree ≤ m)
    (hintegral : IsIntegral (ZMod 2) (α ^ (K + 1)))
    (hne : ∀ k ∈ T, minpoly (ZMod 2) (α ^ (K + 1)) ≠ minpoly (ZMod 2) (α ^ k)) :
    GenAt α m n (K + 1) (insert (K + 1) T) s' where
  size := hsize
  visited_iff j := by
    rw [hvisited, h.visited_iff, Finset.exists_mem_insert, or_comm]
  len := hlen
  poly := by
    rw [Finset.prod_insert h.succ_notMem, ← h.poly, mul_comm]
    exact hpoly
  deg := by
    rw [Finset.sum_insert h.succ_notMem, ← h.deg, Nat.add_comm]
    exact hdeg
  deg_le := Finset.forall_mem_insert _ _ _ |>.mpr ⟨hle, h.deg_le⟩
  integral := Finset.forall_mem_insert _ _ _ |>.mpr ⟨hintegral, h.integral⟩
  sub := Finset.forall_mem_insert _ _ _ |>.mpr ⟨⟨le_rfl, hodd⟩, fun k hk => h.sub_succ hk⟩
  cover k hk hkK := by
    rcases Nat.lt_succ_iff_lt_or_eq.mp (Nat.lt_succ_of_le hkK) with hlt | rfl
    · obtain ⟨k', hk', hc⟩ := h.cover k hk (by omega)
      exact ⟨k', mem_insert_of_mem hk', hc⟩
    · exact ⟨K + 1, mem_insert_self _ _, ⟨0, by rw [pow_zero, mul_one]⟩⟩
  distinct := by
    intro k hk k' hk' hkk'
    rcases mem_insert.mp hk with rfl | hk
    · rcases mem_insert.mp hk' with rfl | hk'
      · exact absurd rfl hkk'
      · exact hne k' hk'
    · rcases mem_insert.mp hk' with rfl | hk'
      · exact (hne k hk).symm
      · exact h.distinct k hk k' hk' hkk'

end

variable (hp : DefiningPoly m poly) (hm : m ≤ 16) (hroot : evalBits α poly = 0)
  (hord : orderOf α = 2 ^ m - 1) (hn : n = 2 ^ m - 1)
include hp hord hn

omit [CharP F 2] [Algebra (ZMod 2) F] hp in
/-- Conjugate exponents give conjugate elements. -/
theorem IsConj.pow_eq {k j : ℕ} (h : IsConj n k (j % n)) : ∃ i, α ^ j = (α ^ k) ^ 2 ^ i := by
  obtain ⟨i, hi⟩ := h
  refine ⟨i, ?_⟩
  rw [← pow_mul, ← pow_mod_orderOf α j, ← pow_mod_orderOf α (k * 2 ^ i), hord, ← hn, hi]

/-- An element with the minimal polynomial of another is one of its conjugates. -/
theorem isConj_of_minpoly_eq {k k' : ℕ}
    (h : minpoly (ZMod 2) (α ^ k) = minpoly (ZMod 2) (α ^ k')) : IsConj n k' (k % n) := by
  have hpos := hp.pos
  have hcycle : (α ^ k') ^ 2 ^ m = α ^ k' := by
    rw [← pow_mul, ← pow_mod_orderOf α (k' * 2 ^ m), hord, ← hn,
      show m = 1 * m from (one_mul m).symm, mul_two_pow_mod hn hp.pos, hn, ← hord,
      pow_mod_orderOf]
  have hroot : aeval (α ^ k) (minpoly (ZMod 2) (α ^ k')) = 0 := by
    rw [← h, minpoly.aeval]
  obtain ⟨s, -, hs⟩ := exists_conj_of_root hcycle hroot (by omega)
  refine ⟨s, ?_⟩
  have hn0 : 0 < n := by
    have hlt : 2 ^ 1 < 2 ^ m := Nat.pow_lt_pow_right (by decide) hpos
    omega
  rw [← pow_mul] at hs
  refine pow_injOn_of_order hord (by rw [← hn]; exact Nat.mod_lt _ hn0)
    (by rw [← hn]; exact Nat.mod_lt _ hn0) ?_
  rw [hn, ← hord, pow_mod_orderOf, pow_mod_orderOf, hs]

include hm hroot

/-- **One root**: skipped if a conjugate has been taken, multiplied in otherwise. -/
theorem genPolyStep_spec {expTable : Array ℕ}
    (hexp : ∀ i < 2 ^ m - 1, expTable.getD i 0 = expPattern m poly i) {K : ℕ} (hK : K + 1 ≤ 24)
    {T : Finset ℕ} {s : GenPoly} (h : GenAt α m n K T s) :
    ∃ T' s', genPolyStep m n expTable s (K + 1) = some s' ∧ GenAt α m n (K + 1) T' s' := by
  unfold genPolyStep
  by_cases hvis : s.visited.getD ((K + 1) % n) false = true
  · rw [if_pos hvis]
    exact ⟨T, s, rfl, h.skip ((h.visited_iff _).mp hvis)⟩
  · rw [if_neg hvis]
    have hnew : ∀ k ∈ T, ¬ IsConj n k ((K + 1) % n) :=
      fun k hk hc => hvis ((h.visited_iff _).mpr ⟨k, hk, hc⟩)
    have hodd := h.odd_of_new hnew
    have hfree : ∀ j, IsConj n (K + 1) j → s.visited.getD j false = false := by
      intro j hj
      cases hval : s.visited.getD j false with
      | false => rfl
      | true =>
        obtain ⟨k, hk, hc⟩ := (h.visited_iff j).mp hval
        exact absurd (hc.trans (hj.symm hn hp.pos)) (hnew k hk)
    have hsize : n ≤ s.visited.size := by
      have hle : 2 ^ m ≤ 2 ^ 16 := Nat.pow_le_pow_right (by decide) hm
      rw [h.size, hn]
      omega
    obtain ⟨v, hmark, hvsize, hv⟩ := markConjugates_all hn hp.pos hsize hfree
    obtain ⟨r, d, -, hmin, hdm, hr⟩ := computeMinPoly_spec hp hm hroot hord hexp (K + 1)
    obtain ⟨hlen, hpoly, hdegree⟩ := gf2PolyMul_spec h.len h.natDegree.le hr.lt
      (h.genDeg_add_le hm hK hodd hdm)
    rw [← hn] at hmin
    rw [hmark, hmin]
    refine ⟨insert (K + 1) T, _, rfl, h.insert hodd (hvsize.trans h.size) hv hlen ?_ ?_ ?_
      hr.isIntegral fun k hk heq => hnew k hk (isConj_of_minpoly_eq hp hord hn heq)⟩
    · rw [← hr.minpoly_eq]
      exact hpoly
    · rw [← hr.minpoly_eq, hr.natDegree]
      exact hdegree
    · rw [← hr.minpoly_eq, hr.natDegree]
      exact hdm

/-- **The whole loop**, by induction on the roots visited. -/
theorem genPolyLoop_spec {expTable : Array ℕ}
    (hexp : ∀ i < 2 ^ m - 1, expTable.getD i 0 = expPattern m poly i) (K : ℕ) (hK : K ≤ 24) :
    ∃ T s, ((List.range K).map (· + 1)).foldlM (genPolyStep m n expTable)
        ⟨Array.replicate 65536 false, true :: List.replicate bchMaxParity false, 0⟩ = some s ∧
      GenAt α m n K T s := by
  induction K with
  | zero =>
    refine ⟨∅, _, rfl, Array.size_replicate, ?_, ?_, ?_, ?_, ?_, ?_, ?_, ?_, ?_⟩
    · intro j
      refine iff_of_false ?_ (by simp)
      simp [Array.getD_eq_getD_getElem?, Array.getElem?_replicate]
      split
      · rfl
      · rfl
    · rw [List.length_cons, List.length_replicate]
    · rw [coefPoly_cons, coefPoly_replicate_false]
      simp [bitVal]
    · rfl
    · intro k hk
      exact absurd hk (notMem_empty k)
    · intro k hk
      exact absurd hk (notMem_empty k)
    · intro k hk
      exact absurd hk (notMem_empty k)
    · intro k hk hk0
      omega
    · intro k hk
      exact absurd hk (notMem_empty k)
  | succ K ih =>
    obtain ⟨T, s, hrun, hs⟩ := ih (by omega)
    obtain ⟨T', s', hstep, hs'⟩ := genPolyStep_spec hp hm hroot hord hn hexp hK hs
    refine ⟨T', s', ?_, hs'⟩
    rw [List.range_succ, List.map_append, List.map_singleton, List.foldlM_append, hrun]
    simp only [Option.bind_eq_bind, Option.bind_some, List.foldlM_cons, List.foldlM_nil, hstep]
    rfl

end

/-! ### The generators of the nine MODCODs -/

/-- The exponential table of the encoder. -/
theorem bchExpTable_getD {m primPoly n : ℕ} :
    ∀ i < n, (bchExpTable m primPoly n).getD i 0 = expPattern m primPoly i := by
  have key : ∀ k ≤ n, ∃ s, (List.range k).foldl
        (fun (s : Array ℕ × ℕ) i => (s.1.setIfInBounds i s.2, mulX m primPoly s.2))
        (Array.replicate (2 * n) 0, 1) = s ∧
      s.1.size = 2 * n ∧ s.2 = expPattern m primPoly k ∧
      ∀ i < k, s.1.getD i 0 = expPattern m primPoly i := by
    intro k
    induction k with
    | zero => exact fun _ => ⟨_, rfl, Array.size_replicate, rfl, fun i hi => absurd hi (Nat.not_lt_zero i)⟩
    | succ k ih =>
      intro hk
      obtain ⟨s, hrun, hsize, hreg, hexp⟩ := ih (by omega)
      rw [List.range_succ, List.foldl_append, List.foldl_cons, List.foldl_nil, hrun]
      refine ⟨_, rfl, by rw [Array.size_setIfInBounds, hsize], ?_, fun i hi => ?_⟩
      · rw [expPattern_succ, hreg]
      · rw [getD_setIfInBounds _ _ _ _ _ (by rw [hsize]; omega), hreg]
        rcases Nat.lt_succ_iff_lt_or_eq.mp hi with hlt | rfl
        · rw [if_neg (by omega), hexp i hlt]
        · rw [if_pos rfl]
  obtain ⟨s, hrun, hsize, -, hexp⟩ := key n le_rfl
  obtain ⟨e, he, -, hlow, -⟩ := expExtend_getD n n le_rfl s.1 (by rw [hsize])
  intro i hi
  rw [bchExpTable, hrun, expExtend, he, hlow i hi, hexp i hi]

theorem gfOrder_cases (f : FrameType) : gfOrder f = 14 ∨ gfOrder f = 15 ∨ gfOrder f = 16 := by
  cases f
  · exact Or.inr (Or.inr rfl)
  · exact Or.inr (Or.inl rfl)
  · exact Or.inl rfl

set_option synthInstance.maxSize 512 in
/-- An odd exponent below 24 is conjugate to no other one, and does not return early. -/
theorem odd_conj_residue {m : ℕ} (hm : m = 14 ∨ m = 15 ∨ m = 16) : ∀ k < 24, ∀ i < m,
    k % 2 = 1 → k * 2 ^ i % (2 ^ m - 1) < 24 → k * 2 ^ i % (2 ^ m - 1) % 2 = 1 →
      k * 2 ^ i % (2 ^ m - 1) = k ∧ i = 0 := by
  rcases hm with rfl | rfl | rfl
  · decide +kernel
  · decide +kernel
  · decide +kernel

/-- Different odd exponents below 24 are not conjugate, and none of them returns early. -/
theorem odd_conj {m : ℕ} (hm : m = 14 ∨ m = 15 ∨ m = 16) : ∀ k < 24, ∀ k' < 24, ∀ i < m,
    k % 2 = 1 → k' % 2 = 1 → k' * 2 ^ i % (2 ^ m - 1) = k → k = k' ∧ i = 0 := by
  rintro k hk k' hk' i hi hodd hodd' rfl
  exact odd_conj_residue hm k' hk' i hi hodd' hk hodd

/-- The parity length of each code, and that a codeword is shorter than the field's order. -/
theorem modcod_bch : ∀ mc ∈ vlsnrModcodTable,
    mc.nBch - mc.kBch = 12 * gfOrder mc.frameType ∧ mc.nBch < 2 ^ gfOrder mc.frameType - 1 ∧
      mc.bchT = 12 ∧ mc.kBch < mc.nBch := by
  decide

section
variable {F : Type*} [Field F] [CharP F 2] [Algebra (ZMod 2) F] {α : F} {m : ℕ}
  (hm : m = 14 ∨ m = 15 ∨ m = 16) (hroot : evalBits α (gfPrimPolys m) = 0)
  (hord : orderOf α = 2 ^ m - 1)
include hm hord

/-- An odd root has `m` different conjugates, so its minimal polynomial has degree `m` at
least. -/
theorem le_natDegree_minpoly {k : ℕ} (hk : k < 24) (hodd : k % 2 = 1)
    (hint : IsIntegral (ZMod 2) (α ^ k)) : m ≤ (minpoly (ZMod 2) (α ^ k)).natDegree := by
  classical
  have hp : DefiningPoly m (gfPrimPolys m) := (gfPrimPolys_cert hm).toDefiningPoly
  have hinj : Set.InjOn (fun s => (α ^ k) ^ 2 ^ s) (range m) := by
    have hlt : ∀ s s', s' < m → s < s' → (α ^ k) ^ 2 ^ s ≠ (α ^ k) ^ 2 ^ s' := by
      intro s s' hs' hss' heq
      -- undo the first `s` squarings
      have hfrob : (α ^ k) = (α ^ k) ^ 2 ^ (s' - s) := by
        refine (iterateFrobenius_inj F 2 s) ?_
        rw [iterateFrobenius_def, iterateFrobenius_def, ← pow_mul (α ^ k) _ (2 ^ s), ← pow_add,
          Nat.sub_add_cancel hss'.le, heq]
      have hn0 : 24 < 2 ^ m - 1 := by
        rcases hm with rfl | rfl | rfl <;> decide
      have hexp : k * 2 ^ (s' - s) % (2 ^ m - 1) = k := by
        refine pow_injOn_of_order hord (Nat.mod_lt _ (by omega)) (by omega) ?_
        rw [← hord, pow_mod_orderOf, pow_mul, ← hfrob]
      have := (odd_conj hm k hk k hk (s' - s) (by omega) hodd hodd hexp).2
      omega
    intro a ha b hb hab
    rcases Nat.lt_trichotomy a b with h | h | h
    · exact absurd hab (hlt a b (mem_range.mp hb) h)
    · exact h
    · exact absurd hab.symm (hlt b a (mem_range.mp ha) h)
  have hne : (minpoly (ZMod 2) (α ^ k)).map (algebraMap (ZMod 2) F) ≠ 0 :=
    Polynomial.map_ne_zero (minpoly.ne_zero hint)
  have hcard := Polynomial.card_le_degree_of_subset_roots
    (p := (minpoly (ZMod 2) (α ^ k)).map (algebraMap (ZMod 2) F))
    (Z := (range m).image fun s => (α ^ k) ^ 2 ^ s) (by
      intro x hx
      obtain ⟨s, -, rfl⟩ := mem_image.mp (mem_val.mp hx)
      rw [mem_roots hne, IsRoot.def, eval_map_algebraMap, aeval_pow_two_pow, minpoly.aeval,
        zero_pow (Nat.two_pow_pos s).ne'])
  rwa [card_image_of_injOn hinj, card_range, natDegree_map] at hcard

include hroot

/-- The roots taken by the finished loop are the twelve odd ones, each of degree `m`. -/
theorem genAt_complete {T : Finset ℕ} {s : GenPoly} (h : GenAt α m (2 ^ m - 1) 24 T s) :
    s.genDeg = 12 * m ∧ (coefPoly s.genPoly).Monic ∧
      ∀ f : (ZMod 2)[X], coefPoly s.genPoly ∣ f ↔
        ∀ k, 1 ≤ k → k ≤ 24 → aeval (α ^ k) f = 0 := by
  have hp : DefiningPoly m (gfPrimPolys m) := (gfPrimPolys_cert hm).toDefiningPoly
  have hT : T = (range 24).filter fun k => k % 2 = 1 := by
    ext k
    rw [mem_filter, mem_range]
    constructor
    · intro hk
      have := h.sub k hk
      exact ⟨by omega, this.2⟩
    · rintro ⟨hk, hodd⟩
      obtain ⟨k', hk', i, hi⟩ := h.cover k (by omega) (by omega)
      have hsub := h.sub k' hk'
      have hn0 : 24 < 2 ^ m - 1 := by
        rcases hm with rfl | rfl | rfl <;> decide
      have hred : k' * 2 ^ (i % m) % (2 ^ m - 1) = k := by
        rw [Nat.mod_eq_of_lt (by omega)] at hi
        rw [hi]
        conv_rhs => rw [← Nat.mod_add_div i m, pow_add, ← mul_assoc, Nat.mul_comm m]
        exact (mul_two_pow_mod rfl hp.pos _ _).symm
      have heq := (odd_conj hm k hk k' (by omega) (i % m)
        (Nat.mod_lt _ (by have := hp.pos; omega)) hodd hsub.2 hred).1
      rwa [heq]
  have hdeg : ∀ k ∈ T, (minpoly (ZMod 2) (α ^ k)).natDegree = m := by
    intro k hk
    have hk' := hk
    rw [hT, mem_filter, mem_range] at hk'
    exact le_antisymm (h.deg_le k hk)
      (le_natDegree_minpoly hm hord hk'.1 hk'.2 (h.integral k hk))
  refine ⟨?_, ?_, fun f => ?_⟩
  · rw [h.deg, Finset.sum_congr rfl hdeg, Finset.sum_const, smul_eq_mul, hT]
    rfl
  · rw [h.poly]
    exact monic_prod_of_monic _ _ fun k hk => minpoly.monic (h.integral k hk)
  · rw [h.poly, prod_minpoly_dvd_iff T (fun k => α ^ k) h.integral h.distinct]
    constructor
    · intro hf k hk hk24
      obtain ⟨k', hk', hc⟩ := h.cover k hk hk24
      obtain ⟨i, hi⟩ := hc.pow_eq hord rfl
      rw [hi, aeval_pow_two_pow, hf k' hk', zero_pow (Nat.two_pow_pos i).ne']
    · intro hf k hk
      have := h.sub k hk
      exact hf k (by omega) this.1

end

/-- The context after the loop over the roots. -/
theorem bchEncoderInit_of_run {mc : Modcod} {s : GenPoly}
    (hrun : ((List.range (2 * mc.bchT)).map (· + 1)).foldlM
        (genPolyStep (gfOrder mc.frameType) (2 ^ gfOrder mc.frameType - 1)
          (bchExpTable (gfOrder mc.frameType) (gfPrimPolys (gfOrder mc.frameType))
            (2 ^ gfOrder mc.frameType - 1)))
        ⟨Array.replicate 65536 false, true :: List.replicate bchMaxParity false, 0⟩ = some s) :
    bchEncoderInit mc = some (if s.genDeg ≠ mc.nBch - mc.kBch then -1 else 0,
      { t := mc.bchT
        n := mc.nBch
        k := mc.kBch
        parityLen := mc.nBch - mc.kBch
        gfM := gfOrder mc.frameType
        genPoly := s.genPoly }) := by
  rw [bchEncoderInit, hrun]

/-- **The encoder's generator.**  Initialisation succeeds, and the generator is monic of degree
`parity_len` and divides exactly the polynomials that vanish at `α, ..., α ^ 24`. -/
theorem bchEncoderInit_spec {F : Type*} [Field F] [CharP F 2] [Algebra (ZMod 2) F] {α : F}
    {mc : Modcod} (hmc : mc ∈ vlsnrModcodTable)
    (hroot : evalBits α (gfPrimPolys (gfOrder mc.frameType)) = 0)
    (hord : orderOf α = 2 ^ gfOrder mc.frameType - 1) :
    ∃ enc, bchEncoderInit mc = some (0, enc) ∧ enc.k = mc.kBch ∧ enc.n = mc.nBch ∧
      enc.parityLen = mc.nBch - mc.kBch ∧ (coefPoly enc.genPoly).Monic ∧
      (coefPoly enc.genPoly).natDegree = enc.parityLen ∧
      ∀ f : (ZMod 2)[X], coefPoly enc.genPoly ∣ f ↔
        ∀ k, 1 ≤ k → k ≤ 24 → aeval (α ^ k) f = 0 := by
  have hm := gfOrder_cases mc.frameType
  obtain ⟨hparity, -, ht, -⟩ := modcod_bch mc hmc
  have hp := (gfPrimPolys_cert hm).toDefiningPoly
  obtain ⟨T, s, hrun, hs⟩ := genPolyLoop_spec hp (by omega) hroot hord rfl
    (bchExpTable_getD (n := 2 ^ gfOrder mc.frameType - 1)) 24 le_rfl
  obtain ⟨hdeg, hmonic, hdvd⟩ := genAt_complete hm hroot hord hs
  have hcount : 24 = 2 * mc.bchT := by rw [ht]
  rw [hcount] at hrun
  have hinit := bchEncoderInit_of_run hrun
  rw [if_neg (by rw [hdeg, hparity]; exact not_not.mpr rfl)] at hinit
  exact ⟨_, hinit, rfl, rfl, rfl, hmonic, by rw [hs.natDegree, hdeg, hparity], hdvd⟩

/-! ### The shift register -/

section
variable {enc : BchEncoder} (hP : 0 < enc.parityLen) (hmonic : (coefPoly enc.genPoly).Monic)
  (hdeg : (coefPoly enc.genPoly).natDegree = enc.parityLen)

theorem lfsrStep_length (lfsr : List Bool) (x : Bool) :
    (lfsrStep enc lfsr x).length = enc.parityLen := by simp [lfsrStep]

theorem lfsrStep_getD (lfsr : List Bool) (x : Bool) (j : ℕ) (hj : j < enc.parityLen) :
    (lfsrStep enc lfsr x).getD j false
      = ((decide (0 < j) && lfsr.getD (j - 1) false) ^^
          (enc.genPoly.getD j false && (x ^^ lfsr.getD (enc.parityLen - 1) false))) := by
  rw [lfsrStep, List.getD_eq_getElem?_getD, List.getElem?_map, List.getElem?_range hj]
  simp only [Option.map_some, Option.getD_some]
  rcases Nat.eq_zero_or_pos j with rfl | hpos
  · simp
  · rw [if_neg (by omega)]
    cases enc.genPoly.getD j false <;> simp [hpos]

include hP hmonic hdeg

/-- **One bit**: the register is multiplied by `X`, the bit enters at degree `parity_len`, and
the generator is subtracted if that degree is reached. -/
theorem lfsrStep_poly {lfsr : List Bool} (hlen : lfsr.length = enc.parityLen) (x : Bool) :
    coefPoly (lfsrStep enc lfsr x) = X * coefPoly lfsr
      + C (bitVal (ZMod 2) x) * X ^ enc.parityLen
      + C (bitVal (ZMod 2) (x ^^ lfsr.getD (enc.parityLen - 1) false)) * coefPoly enc.genPoly := by
  have hand : ∀ a b : Bool, bitVal (ZMod 2) (a && b) = bitVal (ZMod 2) b * bitVal (ZMod 2) a := by
    intro a b
    cases a <;> cases b <;> simp [bitVal]
  ext j
  rw [coefPoly_coeff, coeff_add, coeff_add, coeff_C_mul, coeff_C_mul, coeff_X_pow, coefPoly_coeff]
  rcases Nat.lt_trichotomy j enc.parityLen with hlt | rfl | hgt
  · rw [lfsrStep_getD lfsr x j hlt, bitVal_xor, hand (enc.genPoly.getD j false), if_neg (by omega),
      mul_zero, add_zero]
    congr 1
    cases j with
    | zero => simp [bitVal]
    | succ j => simp [coeff_X_mul, coefPoly_coeff]
  · have htop : enc.genPoly.getD enc.parityLen false = true := by
      have h := coefPoly_coeff enc.genPoly enc.parityLen
      have hone : (coefPoly enc.genPoly).coeff enc.parityLen = 1 := by
        rw [← hdeg]
        exact hmonic.coeff_natDegree
      rw [hone] at h
      exact bitVal_injective (h.symm.trans rfl)
    obtain ⟨c, hc⟩ : ∃ c, enc.parityLen = c + 1 := ⟨enc.parityLen - 1, by omega⟩
    rw [htop, List.getD_eq_getElem?_getD, List.getElem?_eq_none (by rw [lfsrStep_length]),
      if_pos rfl, bitVal_xor, hc, coeff_X_mul, coefPoly_coeff, Nat.add_sub_cancel]
    cases x <;> cases lfsr.getD c false <;> simp [bitVal] <;> decide
  · obtain ⟨c, rfl⟩ : ∃ c, j = c + 1 := ⟨j - 1, by omega⟩
    rw [List.getD_eq_getElem?_getD, List.getElem?_eq_none (by rw [lfsrStep_length]; omega),
      if_neg (by omega), coeff_X_mul, coefPoly_coeff,
      getD_of_natDegree_lt (l := enc.genPoly) (by rw [hdeg]; exact hgt),
      List.getD_eq_getElem?_getD, List.getElem?_eq_none (l := lfsr) (by omega)]
    simp [bitVal]

/-- **The register after `i` bits** holds the remainder of the message so far, shifted up by
`parity_len`. -/
theorem bchLfsr_spec (input : List Bool) (i : ℕ) (hi : i ≤ input.length) :
    ∃ lfsr, (List.range i).foldl (fun lfsr i => lfsrStep enc lfsr (input.getD i false))
        (List.replicate enc.parityLen false) = lfsr ∧ lfsr.length = enc.parityLen ∧
      coefPoly enc.genPoly ∣ wordPoly (input.take i) * X ^ enc.parityLen + coefPoly lfsr := by
  induction i with
  | zero =>
    refine ⟨_, rfl, List.length_replicate, ?_⟩
    rw [List.take_zero, List.range_zero, List.foldl_nil, coefPoly_replicate_false]
    simp [wordPoly, coefPoly]
  | succ i ih =>
    obtain ⟨lfsr, hrun, hlen, q, hq⟩ := ih (by omega)
    rw [List.range_succ, List.foldl_append, List.foldl_cons, List.foldl_nil, hrun]
    refine ⟨_, rfl, lfsrStep_length lfsr _, ?_⟩
    have htake : input.take (i + 1) = input.take i ++ [input.getD i false] := by
      rw [List.take_add_one, List.getElem?_eq_getElem (by omega), List.getD_eq_getElem?_getD,
        List.getElem?_eq_getElem (by omega)]
      rfl
    rw [htake, wordPoly_append, wordPoly_singleton, lfsrStep_poly hP hmonic hdeg hlen,
      List.length_singleton]
    generalize input.getD i false = x
    refine ⟨X * q + C (bitVal (ZMod 2) (x ^^ lfsr.getD (enc.parityLen - 1) false)), ?_⟩
    have htwo : C (bitVal (ZMod 2) x) * X ^ enc.parityLen
        + C (bitVal (ZMod 2) x) * X ^ enc.parityLen = 0 := CharTwo.add_self_eq_zero _
    linear_combination X * hq + htwo

/-- The message bits and the register, read from the top. -/
theorem bchEncode_eq (input : List Bool) (hk : input.length = enc.k) :
    (bchEncode enc input).length = enc.k + enc.parityLen ∧
      (bchEncode enc input).take enc.k = input ∧
      coefPoly enc.genPoly ∣ wordPoly (bchEncode enc input) := by
  obtain ⟨lfsr, hrun, hlen, hdvd⟩ := bchLfsr_spec hP hmonic hdeg input enc.k hk.ge
  have hrev : (List.range enc.parityLen).map (fun i => lfsr.getD (enc.parityLen - 1 - i) false)
      = lfsr.reverse := by
    apply List.ext_getElem
    · simp [hlen]
    · intro i h₁ h₂
      have hi : i < enc.parityLen := by simpa using h₁
      simp only [List.getElem_map, List.getElem_range, List.getElem_reverse, hlen]
      rw [List.getD_eq_getElem?_getD, List.getElem?_eq_getElem (by omega), Option.getD_some]
  unfold bchEncode bchLfsr
  rw [hrun]
  dsimp only
  rw [hrev]
  refine ⟨by simp [hk, hlen], ?_, ?_⟩
  · rw [List.take_append_of_le_length (by simp [hk]), List.take_take, min_self,
      List.take_of_length_le hk.le]
  · rw [wordPoly_append, List.length_reverse, hlen]
    rw [wordPoly, wordPoly, List.reverse_reverse]
    exact hdvd

end

end OpenVlsnr
