import Mathlib.Tactic
import Mathlib.Data.Nat.Size
import Mathlib.Data.Nat.Bitwise
import Mathlib.Algebra.CharP.Two
import Mathlib.GroupTheory.OrderOfElement
import Mathlib.FieldTheory.IsAlgClosed.Basic

/-!
# Elements of a binary field as bit patterns

Over a field of characteristic two, a natural number stands for the polynomial expression in
`α` whose coefficients are its bits (`evalBits`).  When `α` is a root of the polynomial `poly`
of degree `m`, multiplication by `α` is a shift with a conditional exclusive or (`mulX`), and
products and powers are computed on patterns by `mulPattern` and `powPattern`.

If moreover the order of `α` is `2 ^ m - 1`, the powers of `α` run through all non-zero
patterns below `2 ^ m` (`exists_expPattern`) and different patterns are different elements
(`evalBits_injOn`).  The order itself follows from a computation on patterns
(`orderOf_of_cert`).
-/

namespace OpenVlsnr

open Finset

/-! ### Patterns as elements -/

section Eval
variable {F : Type*} [CommRing F]

/-- A coefficient. -/
def bitVal (F : Type*) [CommRing F] (b : Bool) : F := if b then 1 else 0

/-- The element that the pattern `v` stands for. -/
def evalBits (α : F) (v : ℕ) : F := ∑ i ∈ range v.size, bitVal F (v.testBit i) * α ^ i

theorem evalBits_eq_sum (α : F) {v w : ℕ} (h : v < 2 ^ w) :
    evalBits α v = ∑ i ∈ range w, bitVal F (v.testBit i) * α ^ i := by
  refine Finset.sum_subset (range_subset_range.mpr (Nat.size_le.mpr h)) ?_
  intro i _ hi
  have hsize : v < 2 ^ i := Nat.size_le.mp (not_lt.mp fun hlt => hi (mem_range.mpr hlt))
  rw [Nat.testBit_lt_two_pow hsize, bitVal, if_neg Bool.false_ne_true, zero_mul]

@[simp] theorem evalBits_zero (α : F) : evalBits α 0 = 0 := by simp [evalBits]

theorem evalBits_two_pow (α : F) (k : ℕ) : evalBits α (2 ^ k) = α ^ k := by
  rw [evalBits_eq_sum α (Nat.pow_lt_pow_right (by decide) (Nat.lt_succ_self k)),
    Finset.sum_eq_single k]
  · simp [bitVal]
  · intro i _ hi
    rw [Nat.testBit_two_pow_of_ne (Ne.symm hi), bitVal, if_neg Bool.false_ne_true, zero_mul]
  · intro h
    exact absurd (mem_range.mpr (Nat.lt_succ_self k)) h

@[simp] theorem evalBits_one (α : F) : evalBits α 1 = 1 := by
  have := evalBits_two_pow α 0
  rwa [pow_zero, pow_zero] at this

theorem evalBits_two (α : F) : evalBits α 2 = α := by
  have := evalBits_two_pow α 1
  rwa [pow_one, pow_one] at this

/-- A shift multiplies by `α`. -/
theorem evalBits_shiftLeft_one (α : F) (v : ℕ) : evalBits α (v <<< 1) = α * evalBits α v := by
  have hv : v < 2 ^ v.size := Nat.size_le.mp le_rfl
  have hs : v <<< 1 < 2 ^ (v.size + 1) := by
    rw [Nat.shiftLeft_eq, pow_one, pow_succ]
    omega
  rw [evalBits_eq_sum α hs, evalBits_eq_sum α hv, Finset.sum_range_succ', Finset.mul_sum]
  have hlow : (v <<< 1).testBit 0 = false := by simp
  rw [hlow, bitVal, if_neg Bool.false_ne_true, zero_mul, add_zero]
  refine Finset.sum_congr rfl fun i _ => ?_
  rw [Nat.testBit_shiftLeft, pow_succ]
  simp only [ge_iff_le, le_add_iff_nonneg_left, zero_le, decide_true, Bool.true_and,
    Nat.add_sub_cancel]
  ring

end Eval

/-! ### Arithmetic on patterns -/

/-- Multiply by `α`: shift, and reduce when the degree reaches `m`. -/
def mulX (m poly v : ℕ) : ℕ :=
  let v := v <<< 1
  if v.testBit m then v ^^^ poly else v

/-- The pattern of `α ^ i`. -/
def expPattern (m poly i : ℕ) : ℕ := (mulX m poly)^[i] 1

/-- The product of `a` and the low `k` bits of `b`. -/
def mulPattern (m poly a b : ℕ) : ℕ → ℕ
  | 0 => 0
  | k + 1 => mulPattern m poly a b k ^^^ if b.testBit k then (mulX m poly)^[k] a else 0

/-- The `n`-th power of `a`, by squaring; `fuel` bounds the number of bits of `n`. -/
def powPattern (m poly a : ℕ) : ℕ → ℕ → ℕ
  | 0, _ => 1
  | fuel + 1, n =>
      let s := powPattern m poly a fuel (n / 2)
      let q := mulPattern m poly s s m
      if n % 2 = 1 then mulPattern m poly q a m else q

section Char2
variable {F : Type*} [CommRing F] [CharP F 2] {α : F} {m poly : ℕ}

theorem bitVal_xor (a b : Bool) : bitVal F (a ^^ b) = bitVal F a + bitVal F b := by
  cases a <;> cases b <;> simp [bitVal, CharTwo.add_self_eq_zero]

/-- Exclusive or is addition. -/
theorem evalBits_xor (α : F) (v w : ℕ) :
    evalBits α (v ^^^ w) = evalBits α v + evalBits α w := by
  have hv : v < 2 ^ (max v.size w.size) := Nat.size_le.mp (le_max_left _ _)
  have hw : w < 2 ^ (max v.size w.size) := Nat.size_le.mp (le_max_right _ _)
  rw [evalBits_eq_sum α hv, evalBits_eq_sum α hw, evalBits_eq_sum α (Nat.xor_lt_two_pow hv hw),
    ← Finset.sum_add_distrib]
  refine Finset.sum_congr rfl fun i _ => ?_
  rw [Nat.testBit_xor, bitVal_xor, add_mul]

/-- A loop of exclusive ors is a sum. -/
theorem evalBits_foldl_xor (α : F) {g : ℕ → ℕ → ℕ} {f : ℕ → ℕ} (hg : ∀ s i, g s i = s ^^^ f i)
    (s₀ n : ℕ) : evalBits α ((List.range n).foldl g s₀)
      = evalBits α s₀ + ∑ i ∈ range n, evalBits α (f i) := by
  induction n with
  | zero => simp
  | succ n ih =>
    rw [List.range_succ, List.foldl_append, List.foldl_cons, List.foldl_nil, hg, evalBits_xor, ih,
      Finset.sum_range_succ, add_assoc]

theorem foldl_xor_lt {g : ℕ → ℕ → ℕ} {f : ℕ → ℕ} (hg : ∀ s i, g s i = s ^^^ f i) {s₀ w : ℕ}
    (hs : s₀ < 2 ^ w) (n : ℕ) (hf : ∀ i < n, f i < 2 ^ w) :
    (List.range n).foldl g s₀ < 2 ^ w := by
  induction n with
  | zero => exact hs
  | succ n ih =>
    rw [List.range_succ, List.foldl_append, List.foldl_cons, List.foldl_nil, hg]
    exact Nat.xor_lt_two_pow (ih fun i hi => hf i (by omega)) (hf n (Nat.lt_succ_self n))

/-- The defining polynomial of degree `m`. -/
structure DefiningPoly (m poly : ℕ) : Prop where
  pos : 1 < m
  top : poly.testBit m = true
  lt : poly < 2 ^ (m + 1)

theorem mulX_lt (hp : DefiningPoly m poly) {v : ℕ} (hv : v < 2 ^ m) : mulX m poly v < 2 ^ m := by
  have hs : v <<< 1 < 2 ^ (m + 1) := by
    rw [Nat.shiftLeft_eq, pow_one, pow_succ]
    omega
  unfold mulX
  dsimp only
  cases htop : (v <<< 1).testBit m with
  | true =>
    rw [if_pos rfl]
    refine Nat.lt_pow_two_of_testBit _ fun i hi => ?_
    rw [Nat.testBit_xor]
    rcases Nat.eq_or_lt_of_le hi with rfl | hlt
    · rw [htop, hp.top]
      rfl
    · have hle : 2 ^ (m + 1) ≤ 2 ^ i := Nat.pow_le_pow_right (by decide) hlt
      rw [Nat.testBit_lt_two_pow (lt_of_lt_of_le hs hle),
        Nat.testBit_lt_two_pow (lt_of_lt_of_le hp.lt hle)]
      rfl
  | false =>
    rw [if_neg Bool.false_ne_true]
    refine Nat.lt_pow_two_of_testBit _ fun i hi => ?_
    rcases Nat.eq_or_lt_of_le hi with rfl | hlt
    · exact htop
    · exact Nat.testBit_lt_two_pow
        (lt_of_lt_of_le hs (Nat.pow_le_pow_right (by decide) hlt))

theorem evalBits_mulX (hroot : evalBits α poly = 0) (v : ℕ) :
    evalBits α (mulX m poly v) = α * evalBits α v := by
  unfold mulX
  dsimp only
  split
  · rw [evalBits_xor, hroot, add_zero, evalBits_shiftLeft_one]
  · exact evalBits_shiftLeft_one α v

theorem iterate_mulX_lt (hp : DefiningPoly m poly) {v : ℕ} (hv : v < 2 ^ m) (i : ℕ) :
    (mulX m poly)^[i] v < 2 ^ m := by
  induction i with
  | zero => exact hv
  | succ i ih =>
    rw [Function.iterate_succ_apply']
    exact mulX_lt hp ih

theorem evalBits_iterate_mulX (hroot : evalBits α poly = 0) (v i : ℕ) :
    evalBits α ((mulX m poly)^[i] v) = α ^ i * evalBits α v := by
  induction i with
  | zero => rw [Function.iterate_zero_apply, pow_zero, one_mul]
  | succ i ih =>
    rw [Function.iterate_succ_apply', evalBits_mulX hroot, ih, pow_succ]
    ring

theorem expPattern_lt (hp : DefiningPoly m poly) (i : ℕ) : expPattern m poly i < 2 ^ m :=
  iterate_mulX_lt hp (Nat.one_lt_two_pow (by have := hp.pos; omega)) i

theorem evalBits_expPattern (hroot : evalBits α poly = 0) (i : ℕ) :
    evalBits α (expPattern m poly i) = α ^ i := by
  rw [expPattern, evalBits_iterate_mulX hroot, evalBits_one, mul_one]

theorem evalBits_mulPattern_low (hroot : evalBits α poly = 0) (a b k : ℕ) :
    evalBits α (mulPattern m poly a b k)
      = evalBits α a * ∑ i ∈ range k, bitVal F (b.testBit i) * α ^ i := by
  induction k with
  | zero => simp [mulPattern]
  | succ k ih =>
    rw [mulPattern, evalBits_xor, ih, Finset.sum_range_succ, mul_add]
    congr 1
    cases b.testBit k with
    | true =>
      rw [if_pos rfl, evalBits_iterate_mulX hroot, bitVal, if_pos rfl]
      ring
    | false =>
      rw [if_neg Bool.false_ne_true, evalBits_zero, bitVal, if_neg Bool.false_ne_true]
      ring

theorem evalBits_mulPattern (hroot : evalBits α poly = 0) (a : ℕ) {b : ℕ} (hb : b < 2 ^ m) :
    evalBits α (mulPattern m poly a b m) = evalBits α a * evalBits α b := by
  rw [evalBits_mulPattern_low hroot, evalBits_eq_sum α hb]

theorem mulPattern_lt (hp : DefiningPoly m poly) {a : ℕ} (ha : a < 2 ^ m) (b k : ℕ) :
    mulPattern m poly a b k < 2 ^ m := by
  induction k with
  | zero => exact Nat.two_pow_pos m
  | succ k ih =>
    refine Nat.xor_lt_two_pow ih ?_
    split
    · exact iterate_mulX_lt hp ha k
    · exact Nat.two_pow_pos m

theorem powPattern_lt (hp : DefiningPoly m poly) {a : ℕ} (fuel n : ℕ) :
    powPattern m poly a fuel n < 2 ^ m := by
  have hone : 1 < 2 ^ m := Nat.one_lt_two_pow (by have := hp.pos; omega)
  induction fuel generalizing n with
  | zero => exact hone
  | succ fuel ih =>
    rw [powPattern]
    split
    · exact mulPattern_lt hp (mulPattern_lt hp (ih _) _ _) _ _
    · exact mulPattern_lt hp (ih _) _ _

/-- Powers on patterns are powers of the elements. -/
theorem evalBits_powPattern (hp : DefiningPoly m poly) (hroot : evalBits α poly = 0) {a : ℕ}
    (ha : a < 2 ^ m) (fuel n : ℕ) (hn : n < 2 ^ fuel) :
    evalBits α (powPattern m poly a fuel n) = evalBits α a ^ n := by
  induction fuel generalizing n with
  | zero =>
    have hz : n = 0 := by simpa using hn
    rw [powPattern, evalBits_one, hz, pow_zero]
  | succ fuel ih =>
    have hhalf : n / 2 < 2 ^ fuel := by
      rw [pow_succ] at hn
      omega
    have hs := ih (n / 2) hhalf
    have hlt := powPattern_lt hp (a := a) fuel (n / 2)
    rw [powPattern]
    have hdm := Nat.div_add_mod n 2
    split
    · rename_i hodd
      rw [evalBits_mulPattern hroot _ ha, evalBits_mulPattern hroot _ hlt, hs, ← pow_add,
        ← pow_succ]
      congr 1
      omega
    · rename_i heven
      rw [evalBits_mulPattern hroot _ hlt, hs, ← pow_add]
      congr 1
      omega

end Char2

/-! ### The order of the root -/

section Field
variable {F : Type*} [Field F] [CharP F 2] {α : F} {m poly : ℕ}

/-- A computation on patterns that shows the order of `α` to be `2 ^ m - 1`: that power is one,
and no power by a maximal proper divisor is, since what it differs from one by has an inverse. -/
structure PrimitiveCert (m poly : ℕ) : Prop extends DefiningPoly m poly where
  pow_eq : powPattern m poly 2 m (2 ^ m - 1) = 1
  pow_ne : ∀ p, p.Prime → p ∣ 2 ^ m - 1 →
    powPattern m poly (powPattern m poly 2 m ((2 ^ m - 1) / p) ^^^ 1) m (2 ^ m - 1) = 1

theorem orderOf_of_cert (hc : PrimitiveCert m poly) (hroot : evalBits α poly = 0) :
    orderOf α = 2 ^ m - 1 := by
  have hp := hc.toDefiningPoly
  have hm := hp.pos
  have htwo : 2 < 2 ^ m := by
    calc 2 = 2 ^ 1 := rfl
      _ < 2 ^ m := Nat.pow_lt_pow_right (by decide) hm
  have hpow : ∀ a < 2 ^ m, ∀ n < 2 ^ m,
      evalBits α (powPattern m poly a m n) = evalBits α a ^ n :=
    fun a ha n hn => evalBits_powPattern hp hroot ha m n hn
  refine orderOf_eq_of_pow_and_pow_div_prime (by omega) ?_ ?_
  · have h := hpow 2 htwo (2 ^ m - 1) (by omega)
    rwa [hc.pow_eq, evalBits_one, evalBits_two, eq_comm] at h
  · intro p hprime hdvd hone
    have hdiv : (2 ^ m - 1) / p < 2 ^ m := lt_of_le_of_lt (Nat.div_le_self _ _) (by omega)
    set v := powPattern m poly 2 m ((2 ^ m - 1) / p) with hv
    have hzero : evalBits α (v ^^^ 1) = 0 := by
      rw [evalBits_xor, hv, hpow 2 htwo _ hdiv, evalBits_two, hone, evalBits_one,
        CharTwo.add_self_eq_zero]
    have hvlt : v ^^^ 1 < 2 ^ m :=
      Nat.xor_lt_two_pow (powPattern_lt hp m _) (by omega)
    have h := hpow (v ^^^ 1) hvlt (2 ^ m - 1) (by omega)
    rw [hc.pow_ne p hprime hdvd, evalBits_one, hzero, zero_pow (by omega)] at h
    exact one_ne_zero h

omit [CharP F 2] in
/-- A field with a root of the defining polynomial exists. -/
theorem exists_evalBits_eq_zero [IsAlgClosed F] (hp : DefiningPoly m poly) :
    ∃ α : F, evalBits α poly = 0 := by
  let q : Polynomial F :=
    ∑ i ∈ range (m + 1), Polynomial.monomial i (bitVal F (poly.testBit i))
  have hcoeff : q.coeff m = 1 := by
    rw [Polynomial.finsetSum_coeff, Finset.sum_eq_single m]
    · rw [Polynomial.coeff_monomial_same, hp.top]
      rfl
    · intro i _ hi
      exact Polynomial.coeff_monomial_of_ne _ (Ne.symm hi)
    · intro h
      exact absurd (mem_range.mpr (Nat.lt_succ_self m)) h
  have hdeg : q.degree ≠ 0 := by
    intro h
    have hle : (m : WithBot ℕ) ≤ q.degree :=
      Polynomial.le_degree_of_ne_zero (by rw [hcoeff]; exact one_ne_zero)
    rw [h] at hle
    have := hp.pos
    have hm : m ≤ 0 := by exact_mod_cast hle
    omega
  obtain ⟨α, hα⟩ := IsAlgClosed.exists_root q hdeg
  refine ⟨α, ?_⟩
  rw [evalBits_eq_sum α hp.lt, ← Polynomial.IsRoot.def.mp hα, Polynomial.eval_finsetSum]
  exact Finset.sum_congr rfl fun i _ => (Polynomial.eval_monomial).symm

/-! ### Patterns and powers of a primitive element -/

section Primitive
variable (hp : DefiningPoly m poly) (hroot : evalBits α poly = 0)
  (hord : orderOf α = 2 ^ m - 1)

omit [CharP F 2] in
include hord in
theorem pow_injOn_of_order {i j : ℕ} (hi : i < 2 ^ m - 1) (hj : j < 2 ^ m - 1)
    (h : α ^ i = α ^ j) : i = j :=
  pow_injOn_Iio_orderOf (by simpa [hord] using hi) (by simpa [hord] using hj) h

omit [CharP F 2] in
include hp hord in
theorem root_ne_zero : α ≠ 0 := by
  rintro rfl
  have hlt : 2 ^ 1 < 2 ^ m := Nat.pow_lt_pow_right (by decide) hp.pos
  have h := pow_orderOf_eq_one (0 : F)
  rw [hord, zero_pow (by omega)] at h
  exact zero_ne_one h

include hp hroot hord

theorem expPattern_pos (i : ℕ) : 0 < expPattern m poly i := by
  rcases Nat.eq_zero_or_pos (expPattern m poly i) with hz | hpos
  · have h := evalBits_expPattern (m := m) hroot i
    rw [hz, evalBits_zero] at h
    exact absurd h.symm (pow_ne_zero i (root_ne_zero hp hord))
  · exact hpos

omit hp in
theorem expPattern_injOn {i j : ℕ} (hi : i < 2 ^ m - 1) (hj : j < 2 ^ m - 1)
    (h : expPattern m poly i = expPattern m poly j) : i = j := by
  refine pow_injOn_of_order hord hi hj ?_
  rw [← evalBits_expPattern hroot, ← evalBits_expPattern hroot, h]

/-- Every non-zero pattern is a power: there are as many of one as of the other. -/
theorem exists_expPattern {v : ℕ} (hv : 0 < v) (hlt : v < 2 ^ m) :
    ∃ i < 2 ^ m - 1, expPattern m poly i = v := by
  have hsurj : Set.SurjOn (expPattern m poly) (range (2 ^ m - 1)) (Ioo 0 (2 ^ m)) := by
    refine Finset.surjOn_of_injOn_of_card_le _ ?_ ?_ ?_
    · intro i _
      exact mem_coe.mpr (mem_Ioo.mpr ⟨expPattern_pos hp hroot hord i, expPattern_lt hp i⟩)
    · intro i hi j hj h
      exact expPattern_injOn hroot hord (mem_range.mp hi) (mem_range.mp hj) h
    · rw [Nat.card_Ioo, card_range]
      omega
  obtain ⟨i, hi, h⟩ := hsurj (mem_coe.mpr (mem_Ioo.mpr ⟨hv, hlt⟩))
  exact ⟨i, mem_range.mp hi, h⟩

theorem evalBits_ne_zero {v : ℕ} (hv : 0 < v) (hlt : v < 2 ^ m) : evalBits α v ≠ 0 := by
  obtain ⟨i, -, rfl⟩ := exists_expPattern hp hroot hord hv hlt
  rw [evalBits_expPattern hroot]
  exact pow_ne_zero i (root_ne_zero hp hord)

theorem evalBits_eq_zero_iff {v : ℕ} (hlt : v < 2 ^ m) : evalBits α v = 0 ↔ v = 0 := by
  constructor
  · intro h
    by_contra hne
    exact evalBits_ne_zero hp hroot hord (Nat.pos_of_ne_zero hne) hlt h
  · rintro rfl
    exact evalBits_zero α

/-- Different patterns are different elements. -/
theorem evalBits_injOn {v w : ℕ} (hv : v < 2 ^ m) (hw : w < 2 ^ m)
    (h : evalBits α v = evalBits α w) : v = w := by
  have hxor : evalBits α (v ^^^ w) = 0 := by
    rw [evalBits_xor, h, CharTwo.add_self_eq_zero]
  have hzero := (evalBits_eq_zero_iff hp hroot hord (Nat.xor_lt_two_pow hv hw)).mp hxor
  exact Nat.xor_eq_zero_iff.mp hzero

end Primitive

end Field

end OpenVlsnr
