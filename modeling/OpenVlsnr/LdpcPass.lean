import Mathlib.Data.Sign.Basic
import OpenVlsnr.LdpcDecode

/-!
# One decoding pass without bit errors

Every belief either points to its bit of a codeword or is zero, as punctured bits are.  A check
of even parity then sends each column a message that points to its bit or is zero, so no step
turns a sign (`ldpcScatter_spec`), and a column whose neighbours in a row are all known becomes
known in that row (`ldpcRow_spec`).  Row `r` ends in parity bit `r`, so one pass settles every
parity bit whose predecessor was received (`ldpcPass_spec`), and the convergence check of the
first iteration accepts (`ldpcDecode_of_signs`).

The operator has to have the product of the signs only as far as a pass goes: on values away from
zero by a level that falls with the operations they have been through (`CheckRule`).
-/

namespace OpenVlsnr

open BucketFill Extrinsic

/-! ### Signs -/

/-- The sign of the belief in a bit. -/
def bitSign (b : Bool) : SignType := if b then -1 else 1

theorem bitSign_xor (a b : Bool) : bitSign (a ^^ b) = bitSign a * bitSign b := by
  cases a <;> cases b <;> rfl

theorem bitSign_ne_zero (b : Bool) : bitSign b ≠ 0 := by
  cases b <;> decide

theorem bitSign_mul_self (b : Bool) : bitSign b * bitSign b = 1 := by
  cases b <;> rfl

section
variable {R : Type*} [Field R] [LinearOrder R] [IsStrictOrderedRing R]

open SignType

/-- A belief that points to the bit `b`. -/
def Knows (b : Bool) (v : R) : Prop := sign v = bitSign b

/-- A belief that points to the bit `b` or nowhere. -/
def Agrees (b : Bool) (v : R) : Prop := v ≠ 0 → Knows b v

omit [IsStrictOrderedRing R] in
theorem Knows.agrees {b : Bool} {v : R} (h : Knows b v) : Agrees b v := fun _ => h

omit [IsStrictOrderedRing R] in
theorem agrees_zero (b : Bool) : Agrees b (0 : R) := fun h => absurd rfl h

omit [IsStrictOrderedRing R] in
theorem Knows.ne_zero {b : Bool} {v : R} (h : Knows b v) : v ≠ 0 := by
  rintro rfl
  rw [Knows, sign_zero] at h
  exact bitSign_ne_zero b h.symm

omit [IsStrictOrderedRing R] in
theorem knows_iff {b : Bool} {v : R} : Knows b v ↔ if b then v < 0 else 0 < v := by
  cases b
  · exact sign_eq_one_iff
  · exact sign_eq_neg_one_iff

omit [IsStrictOrderedRing R] in
/-- The hard decision on a belief. -/
theorem Agrees.decide_neg {b : Bool} {v : R} (h : Agrees b v) (hzero : v = 0 → b = false) :
    decide (v < 0) = b := by
  by_cases hv : v = 0
  · rw [hv, hzero hv]
    simp
  · have hk := knows_iff.mp (h hv)
    cases b
    · exact decide_eq_false (not_lt.mpr (le_of_lt hk))
    · exact decide_eq_true hk

/-- A known belief stays known when an agreeing message is added. -/
theorem Knows.add {b : Bool} {v w : R} (hv : Knows b v) (hw : Agrees b w) : Knows b (v + w) := by
  by_cases hw0 : w = 0
  · rw [hw0, add_zero]
    exact hv
  · have hv := knows_iff.mp hv
    have hw := knows_iff.mp (hw hw0)
    rw [knows_iff]
    cases b
    · exact add_pos hv hw
    · exact add_neg hv hw

theorem Agrees.add {b : Bool} {v w : R} (hv : Agrees b v) (hw : Agrees b w) :
    Agrees b (v + w) := by
  by_cases hv0 : v = 0
  · rw [hv0, zero_add]
    exact hw
  · exact ((hv hv0).add hw).agrees

omit [IsStrictOrderedRing R] in
/-- An even row: the signs of the other columns multiply to the sign of the one left out. -/
theorem prod_bitSign_erase {degree d : ℕ} (c : ℕ → Bool) (hd : d < degree)
    (heven : ∏ i ∈ Finset.range degree, bitSign (c i) = 1) :
    ∏ i ∈ (Finset.range degree).erase d, bitSign (c i) = bitSign (c d) := by
  have hmul := Finset.mul_prod_erase (Finset.range degree) (fun i => bitSign (c i))
    (Finset.mem_range.mpr hd)
  rw [heven] at hmul
  calc ∏ i ∈ (Finset.range degree).erase d, bitSign (c i)
      = bitSign (c d) * (bitSign (c d) * ∏ i ∈ (Finset.range degree).erase d, bitSign (c i)) := by
        rw [← mul_assoc, bitSign_mul_self, one_mul]
    _ = bitSign (c d) := by rw [hmul, mul_one]

/-! ### The box-plus operator -/

theorem sign_clampLlr (a : R) : sign (clampLlr a) = sign a := by
  have h40 : (0 : R) < llrClamp := by norm_num
  rw [clampLlr]
  split
  · rename_i h
    rw [sign_pos h40, sign_pos (h40.trans h)]
  · split
    · rename_i h
      rw [sign_neg (neg_lt_zero.mpr h40), sign_neg (h.trans (neg_lt_zero.mpr h40))]
    · rfl

/-- What the correction takes off the smaller magnitude. -/
def boxplusLoss (lut : R → R) (a b : R) : R :=
  lut |(|clampLlr a| - |clampLlr b|)| - lut (|clampLlr a| + |clampLlr b|)

/-- Twice the smaller magnitude is how far sum and difference are apart. -/
theorem abs_add_abs_sub (a b : R) : |a| + |b| - |(|a| - |b|)| = 2 * min |a| |b| := by
  rcases le_total |a| |b| with h | h
  · rw [min_eq_left h, abs_of_nonpos (sub_nonpos.mpr h)]
    ring
  · rw [min_eq_right h, abs_of_nonneg (sub_nonneg.mpr h)]
    ring

/-- **The operator in signs and magnitudes.** -/
theorem boxplus_eq (lut : R → R) (a b : R) :
    boxplus lut a b = (if clampLlr a < 0 then -1 else 1) * (if clampLlr b < 0 then -1 else 1)
      * (min |clampLlr a| |clampLlr b| - boxplusLoss lut a b) := by
  rw [boxplus, boxplusLoss]
  generalize clampLlr a = a
  generalize clampLlr b = b
  have hmin : (if |a| < |b| then |a| else |b|) = min |a| |b| := by
    split
    · rename_i h
      exact (min_eq_left h.le).symm
    · rename_i h
      exact (min_eq_right (not_lt.mp h)).symm
  rw [hmin]
  by_cases ha : a < 0
  · by_cases hb : b < 0
    · -- equal signs: the sum is further out than the difference
      have hsum : |a + b| = |a| + |b| := by
        rw [abs_of_neg (add_neg ha hb), abs_of_neg ha, abs_of_neg hb, neg_add]
      have hdiff : |a - b| = |(|a| - |b|)| := by
        rw [abs_of_neg ha, abs_of_neg hb, neg_sub_neg, abs_sub_comm]
      rw [if_pos ha, if_pos hb, hsum, hdiff]
      ring
    · -- opposite signs: the difference is
      have hb0 := not_lt.mp hb
      have hsum : |a + b| = |(|a| - |b|)| := by
        rw [abs_of_neg ha, abs_of_nonneg hb0, ← neg_add', abs_neg]
      have hdiff : |a - b| = |a| + |b| := by
        rw [abs_of_neg (sub_neg.mpr (ha.trans_le hb0)), abs_of_neg ha, abs_of_nonneg hb0]
        ring
      rw [if_pos ha, if_neg hb, hsum, hdiff]
      ring
  · have ha0 := not_lt.mp ha
    by_cases hb : b < 0
    · have hsum : |a + b| = |(|a| - |b|)| := by
        rw [abs_of_nonneg ha0, abs_of_neg hb, sub_neg_eq_add]
      have hdiff : |a - b| = |a| + |b| := by
        rw [abs_of_pos (sub_pos.mpr (hb.trans_le ha0)), abs_of_nonneg ha0, abs_of_neg hb,
          sub_eq_add_neg]
      rw [if_neg ha, if_pos hb, hsum, hdiff]
      ring
    · have hb0 := not_lt.mp hb
      have hsum : |a + b| = |a| + |b| := by
        rw [abs_of_nonneg (add_nonneg ha0 hb0), abs_of_nonneg ha0, abs_of_nonneg hb0]
      have hdiff : |a - b| = |(|a| - |b|)| := by rw [abs_of_nonneg ha0, abs_of_nonneg hb0]
      rw [if_neg ha, if_neg hb, hsum, hdiff]
      ring

theorem sign_unit {a : R} (ha : a ≠ 0) :
    sign (if a < 0 then (-1 : R) else 1) = sign a := by
  split
  · rename_i h
    rw [sign_neg h, sign_neg (neg_lt_zero.mpr one_pos)]
  · rename_i h
    rw [sign_pos (lt_of_le_of_ne (not_lt.mp h) (Ne.symm ha)), sign_pos one_pos]

theorem clampLlr_ne_zero {a : R} (ha : a ≠ 0) : clampLlr a ≠ 0 := by
  rwa [← sign_ne_zero, sign_clampLlr, sign_ne_zero]

/-- Nothing combined with anything is nothing. -/
theorem boxplus_of_zero (lut : R → R) {a b : R} (h : a = 0 ∨ b = 0) : boxplus lut a b = 0 := by
  have hclamp : clampLlr (0 : R) = 0 := by
    rw [← sign_eq_zero_iff, sign_clampLlr, sign_zero]
  rw [boxplus_eq, boxplusLoss]
  rcases h with rfl | rfl
  · simp [hclamp]
  · simp [hclamp]

/-- **The code's operator has the product of the signs** where the correction takes off less than
the smaller magnitude, and the rest of that is left. -/
theorem boxplus_of_loss (lut : R → R) {a b : R} (ha : a ≠ 0) (hb : b ≠ 0)
    (hloss : boxplusLoss lut a b < min |clampLlr a| |clampLlr b|) :
    sign (boxplus lut a b) = sign a * sign b ∧
      |boxplus lut a b| = min |clampLlr a| |clampLlr b| - boxplusLoss lut a b := by
  have hunit : ∀ x : R, |if x < 0 then (-1 : R) else 1| = 1 := by
    intro x
    split
    · rw [abs_neg, abs_one]
    · exact abs_one
  rw [boxplus_eq]
  constructor
  · rw [sign_mul, sign_mul, sign_unit (clampLlr_ne_zero ha), sign_unit (clampLlr_ne_zero hb),
      sign_clampLlr, sign_clampLlr, sign_pos (sub_pos.mpr hloss), mul_one]
  · rw [abs_mul, abs_mul, hunit, hunit, one_mul, one_mul, abs_of_pos (sub_pos.mpr hloss)]

/-- A table that falls by less than half a unit for each unit takes off less everywhere. -/
theorem sign_boxplus {lut : R → R}
    (hlut : ∀ x y, 0 ≤ x → x < y → lut x - lut y < (y - x) / 2) (a b : R) :
    sign (boxplus lut a b) = sign a * sign b := by
  by_cases hzero : a = 0 ∨ b = 0
  · rw [boxplus_of_zero lut hzero, sign_zero, eq_comm, mul_eq_zero]
    exact hzero.imp (fun h => by rw [h, sign_zero]) fun h => by rw [h, sign_zero]
  obtain ⟨ha, hb⟩ := not_or.mp hzero
  have hapos := abs_pos.mpr (clampLlr_ne_zero ha)
  have hbpos := abs_pos.mpr (clampLlr_ne_zero hb)
  have hlt : |(|clampLlr a| - |clampLlr b|)| < |clampLlr a| + |clampLlr b| := by
    rw [abs_lt]
    constructor <;> linarith
  have hgap := hlut _ _ (abs_nonneg _) hlt
  have hmin := abs_add_abs_sub (clampLlr a) (clampLlr b)
  refine (boxplus_of_loss lut ha hb ?_).1
  rw [boxplusLoss]
  linarith

/-! ### Levels -/

/-- A value that has been through `n` operations: nothing, or at least `level n` away from it. -/
def Deep (level : ℕ → R) (n : ℕ) (a : R) : Prop := a = 0 ∨ level n ≤ |a|

/-- A check rule with the product of the signs on values that have been through fewer than `2 * D`
operations. -/
structure CheckRule (boxplus : R → R → R) (level : ℕ → R) (D : ℕ) : Prop where
  antitone : ∀ n, level (n + 1) ≤ level n
  combine : ∀ n < 2 * D, ∀ a b, Deep level n a → Deep level n b →
    sign (boxplus a b) = sign a * sign b ∧ Deep level (n + 1) (boxplus a b)

/-- A rule with the product of the signs on all values needs no levels. -/
theorem CheckRule.of_sign {boxplus : R → R → R}
    (hbox : ∀ a b, sign (boxplus a b) = sign a * sign b) (D : ℕ) :
    CheckRule boxplus (fun _ => 0) D :=
  ⟨fun _ => le_rfl, fun _ _ a b _ _ => ⟨hbox a b, .inr (abs_nonneg _)⟩⟩

section
variable {level : ℕ → R} {n : ℕ}

omit [IsStrictOrderedRing R] in
theorem deep_zero : Deep level n (0 : R) := .inl rfl

omit [IsStrictOrderedRing R] in
theorem Deep.succ (hlevel : ∀ n, level (n + 1) ≤ level n) {a : R} (h : Deep level n a) :
    Deep level (n + 1) a :=
  h.imp_right (hlevel n).trans

/-- A belief does not come nearer to nothing when an agreeing message is added. -/
theorem Knows.deep_add {b : Bool} {v w : R} (hv : Knows b v) (hw : Agrees b w)
    (hdeep : Deep level n v) : Deep level n (v + w) := by
  refine .inr ((hdeep.resolve_left hv.ne_zero).trans ?_)
  by_cases hw0 : w = 0
  · rw [hw0, add_zero]
  · have hv := knows_iff.mp hv
    have hw := knows_iff.mp (hw hw0)
    cases b
    · simp only [Bool.false_eq_true, if_false] at hv hw
      rw [abs_of_pos hv, abs_of_pos (add_pos hv hw)]
      linarith
    · simp only [if_true] at hv hw
      rw [abs_of_neg hv, abs_of_neg (add_neg hv hw)]
      linarith

theorem Agrees.deep_add {b : Bool} {v w : R} (hv : Agrees b v) (hw : Agrees b w)
    (hdeep : Deep level n v) (hdeep' : Deep level n w) : Deep level n (v + w) := by
  by_cases hv0 : v = 0
  · rw [hv0, zero_add]
    exact hdeep'
  · exact (hv hv0).deep_add hw hdeep

end

/-! ### Messages -/

section
variable {boxplus : R → R → R} {level : ℕ → R} {D : ℕ} (hrule : CheckRule boxplus level D)
include hrule

omit [IsStrictOrderedRing R] in
/-- **The message of an even check** never points to the wrong bit, it points to the bit when all
others are known, and it is at most `D` operations deeper than they are. -/
theorem extrinsic_spec {v : ℕ → R} {c : ℕ → Bool} {degree d n : ℕ} (hd : d < degree)
    (hdegree : degree ≤ D + 2) (hn : n ≤ D)
    (heven : ∏ i ∈ Finset.range degree, bitSign (c i) = 1)
    (hothers : ∀ i < degree, i ≠ d → Agrees (c i) (v i) ∧ Deep level n (v i)) :
    Agrees (c d) (extrinsic boxplus 0 v degree d) ∧
      Deep level (n + D) (extrinsic boxplus 0 v degree d) ∧
      (2 ≤ degree → (∀ i < degree, i ≠ d → Knows (c i) (v i)) →
        Knows (c d) (extrinsic boxplus 0 v degree d)) := by
  by_cases htwo : 2 ≤ degree
  · have hmono : ∀ n a, Deep level n a → Deep level (n + 1) a := fun _ _ => Deep.succ hrule.antitone
    obtain ⟨hprod, hdeep⟩ := map_extrinsic hmono hrule.combine 0 v htwo hd
      (show n + (degree - 2) ≤ 2 * D by omega) fun i hi hid => (hothers i hi hid).2
    have hknows : (∀ i < degree, i ≠ d → Knows (c i) (v i)) →
        Knows (c d) (extrinsic boxplus 0 v degree d) := by
      intro hall
      rw [Knows, hprod, ← prod_bitSign_erase c hd heven]
      apply Finset.prod_congr rfl
      intro i hi
      rw [Finset.mem_erase, Finset.mem_range] at hi
      exact hall i hi.2 hi.1
    refine ⟨?_, deepen hmono (by omega) hdeep, fun _ => hknows⟩
    by_cases hall : ∀ i < degree, i ≠ d → v i ≠ 0
    · exact (hknows fun i hi hid => (hothers i hi hid).1 (hall i hi hid)).agrees
    · -- one of the others is zero, so the message is
      push Not at hall
      obtain ⟨i, hi, hid, hzero⟩ := hall
      have hsign : sign (extrinsic boxplus 0 v degree d) = 0 := by
        rw [hprod]
        apply Finset.prod_eq_zero (Finset.mem_erase.mpr ⟨hid, Finset.mem_range.mpr hi⟩)
        rw [hzero, sign_zero]
      rw [sign_eq_zero_iff.mp hsign]
      exact agrees_zero _
  · rw [extrinsic, if_pos (by omega)]
    exact ⟨agrees_zero _, deep_zero, fun h => absurd h htwo⟩

end

/-! ### One row -/

/-- All beliefs agree with the word `c`, at most `D` operations deep; those in the bits `S`, which
were received, are known and as strong as they were. -/
structure Believes (level : ℕ → R) (D : ℕ) (S : ℕ → Prop) (c : ℕ → Bool) (n : ℕ)
    (s : LdpcState R) : Prop where
  length_eq : s.vnLlr.length = n
  agrees : ∀ vn < n, Agrees (c vn) (s.vnLlr.getD vn 0)
  deep : ∀ vn < n, Deep level D (s.vnLlr.getD vn 0)
  strong : ∀ vn < n, S vn → Knows (c vn) (s.vnLlr.getD vn 0) ∧ Deep level 0 (s.vnLlr.getD vn 0)

/-- The belief in a bit is known. -/
def Settled (c : ℕ → Bool) (s : LdpcState R) (vn : ℕ) : Prop := Knows (c vn) (s.vnLlr.getD vn 0)

omit [IsStrictOrderedRing R] [LinearOrder R] in
theorem ldpcScatter_vnLlr (csr : LdpcCsr) (newMsg : ℕ → R) (a : ℕ) (s : LdpcState R) (d vn : ℕ)
    (hcol : csr.colIdx.getD (a + d) 0 < s.vnLlr.length) (hedge : s.edgeMsg.getD (a + d) 0 = 0) :
    (ldpcScatter csr newMsg a s d).vnLlr.getD vn 0
      = if csr.colIdx.getD (a + d) 0 = vn then s.vnLlr.getD vn 0 + newMsg d
        else s.vnLlr.getD vn 0 := by
  rw [ldpcScatter]
  dsimp only
  rw [hedge, sub_zero, getD_modify _ _ hcol]

section
variable {level : ℕ → R} {D : ℕ} {S : ℕ → Prop}

/-- **One edge.**  An agreeing message keeps every belief right. -/
theorem ldpcScatter_spec {c : ℕ → Bool} {n : ℕ} {csr : LdpcCsr} {newMsg : ℕ → R} {a d : ℕ}
    {s : LdpcState R} (hs : Believes level D S c n s) (hcol : csr.colIdx.getD (a + d) 0 < n)
    (hedge : s.edgeMsg.getD (a + d) 0 = 0)
    (hmsg : Agrees (c (csr.colIdx.getD (a + d) 0)) (newMsg d))
    (hdeep : ¬S (csr.colIdx.getD (a + d) 0) → Deep level D (newMsg d)) :
    Believes level D S c n (ldpcScatter csr newMsg a s d) ∧
      (∀ vn < n, Settled c s vn → Settled c (ldpcScatter csr newMsg a s d) vn) ∧
      (Knows (c (csr.colIdx.getD (a + d) 0)) (newMsg d) →
        Settled c (ldpcScatter csr newMsg a s d) (csr.colIdx.getD (a + d) 0)) ∧
      ∀ p ≠ a + d, (ldpcScatter csr newMsg a s d).edgeMsg.getD p 0 = s.edgeMsg.getD p 0 := by
  have hval : ∀ vn, (ldpcScatter csr newMsg a s d).vnLlr.getD vn 0
      = if csr.colIdx.getD (a + d) 0 = vn then s.vnLlr.getD vn 0 + newMsg d
        else s.vnLlr.getD vn 0 := fun vn =>
    ldpcScatter_vnLlr csr newMsg a s d vn (by rw [hs.length_eq]; exact hcol) hedge
  refine ⟨⟨?_, fun vn hvn => ?_, fun vn hvn => ?_, fun vn hvn hS => ?_⟩, fun vn hvn hset => ?_,
    fun hknows => ?_, fun p hp => ?_⟩
  · rw [ldpcScatter, List.length_modify, hs.length_eq]
  · rw [hval vn]
    split
    · rename_i h
      rw [← h] at hvn ⊢
      exact (hs.agrees _ hvn).add hmsg
    · exact hs.agrees vn hvn
  · rw [hval vn]
    split
    · rename_i h
      rw [← h] at hvn ⊢
      by_cases hS : S (csr.colIdx.getD (a + d) 0)
      · exact (hs.strong _ hvn hS).1.deep_add hmsg (hs.deep _ hvn)
      · exact (hs.agrees _ hvn).deep_add hmsg (hs.deep _ hvn) (hdeep hS)
    · exact hs.deep vn hvn
  · rw [hval vn]
    split
    · rename_i h
      rw [← h] at hvn hS ⊢
      obtain ⟨hknown, hstrong⟩ := hs.strong _ hvn hS
      exact ⟨hknown.add hmsg, hknown.deep_add hmsg hstrong⟩
    · exact hs.strong vn hvn hS
  · rw [Settled, hval vn]
    split
    · rename_i h
      rw [h] at hmsg
      exact Knows.add hset hmsg
    · exact hset
  · rw [Settled, hval _, if_pos rfl, add_comm (s.vnLlr.getD _ 0)]
    exact hknows.add (hs.agrees _ hcol)
  · rw [ldpcScatter, List.getD_eq_getElem?_getD, List.getElem?_set_ne (Ne.symm hp),
      List.getD_eq_getElem?_getD]

/-- The edges of a row, one after the other. -/
theorem ldpcScatter_run {c : ℕ → Bool} {n : ℕ} {csr : LdpcCsr} {newMsg : ℕ → R} {a : ℕ}
    {s : LdpcState R} (hs : Believes level D S c n s) (degree : ℕ)
    (hcol : ∀ d < degree, csr.colIdx.getD (a + d) 0 < n)
    (hedge : ∀ d < degree, s.edgeMsg.getD (a + d) 0 = 0)
    (hmsg : ∀ d < degree, Agrees (c (csr.colIdx.getD (a + d) 0)) (newMsg d))
    (hdeep : ∀ d < degree, ¬S (csr.colIdx.getD (a + d) 0) → Deep level D (newMsg d))
    {s' : LdpcState R} (hs' : (List.range degree).foldl (ldpcScatter csr newMsg a) s = s') :
    Believes level D S c n s' ∧ (∀ vn < n, Settled c s vn → Settled c s' vn) ∧
      (∀ d < degree, Knows (c (csr.colIdx.getD (a + d) 0)) (newMsg d) →
        Settled c s' (csr.colIdx.getD (a + d) 0)) ∧
      ∀ p, p < a ∨ a + degree ≤ p → s'.edgeMsg.getD p 0 = s.edgeMsg.getD p 0 := by
  induction degree generalizing s' with
  | zero =>
    subst hs'
    exact ⟨hs, fun vn _ h => h, fun d hd => absurd hd (Nat.not_lt_zero d), fun p _ => rfl⟩
  | succ d ih =>
    rw [List.range_succ, List.foldl_append, List.foldl_cons, List.foldl_nil] at hs'
    generalize hmid : (List.range d).foldl (ldpcScatter csr newMsg a) s = mid at hs'
    obtain ⟨hbel, hmono, hlearn, hframe⟩ := ih (fun i hi => hcol i (by omega))
      (fun i hi => hedge i (by omega)) (fun i hi => hmsg i (by omega))
      (fun i hi => hdeep i (by omega)) hmid
    have hedge' : mid.edgeMsg.getD (a + d) 0 = 0 := by
      rw [hframe (a + d) (Or.inr le_rfl)]
      exact hedge d (Nat.lt_succ_self d)
    have hstep := ldpcScatter_spec hbel (hcol d (Nat.lt_succ_self d)) hedge'
      (hmsg d (Nat.lt_succ_self d)) (hdeep d (Nat.lt_succ_self d))
    rw [hs'] at hstep
    obtain ⟨hbel', hmono', hlearn', hframe'⟩ := hstep
    refine ⟨hbel', fun vn hvn h => hmono' vn hvn (hmono vn hvn h), fun i hi hknows => ?_,
      fun p hp => ?_⟩
    · rcases Nat.lt_succ_iff_lt_or_eq.mp hi with hlt | rfl
      · exact hmono' _ (hcol i hi) (hlearn i hlt hknows)
      · exact hlearn' hknows
    · rw [hframe' p (by omega), hframe p (by omega)]

theorem prod_bitSign (l : List ℕ) (c : ℕ → Bool) :
    ∏ i ∈ Finset.range l.length, bitSign (c (l.getD i 0)) = bitSign (xorAll (l.map c)) := by
  induction l with
  | nil => rfl
  | cons vn l ih =>
    rw [List.length_cons, Finset.prod_range_succ', List.map_cons, xorAll_cons, bitSign_xor, ← ih,
      mul_comm]
    rfl

section
variable {code : LdpcCode} (hcode : code.WellFormed) {boxplus : R → R → R}
  (hrule : CheckRule boxplus level D)
include hcode hrule

/-- **One row.**  No sign turns, and a column becomes known when all others of the row are.  A row
has at most one column that was not received. -/
theorem ldpcRow_spec {c : ℕ → Bool} {s : LdpcState R} (hs : Believes level D S c code.n s) {r : ℕ}
    (hr : r < code.m) (hshort : (csrRow code r).length ≤ D + 2)
    (hone : ∀ d < (csrRow code r).length, ¬S ((csrRow code r).getD d 0) →
      ∀ i < (csrRow code r).length, i ≠ d → S ((csrRow code r).getD i 0))
    (heven : xorAll ((csrRow code r).map c) = false)
    (hedge : ∀ p, (buildCsr code).rowPtr.getD r 0 ≤ p →
      p < (buildCsr code).rowPtr.getD (r + 1) 0 → s.edgeMsg.getD p 0 = 0)
    {s' : LdpcState R} (hs' : ldpcRow boxplus (buildCsr code) s r = s') :
    Believes level D S c code.n s' ∧ (∀ vn < code.n, Settled c s vn → Settled c s' vn) ∧
      (∀ d < (csrRow code r).length, 2 ≤ (csrRow code r).length →
        (∀ i < (csrRow code r).length, i ≠ d → Settled c s ((csrRow code r).getD i 0)) →
        Settled c s' ((csrRow code r).getD d 0)) ∧
      ∀ p, (buildCsr code).rowPtr.getD (r + 1) 0 ≤ p →
        s'.edgeMsg.getD p 0 = s.edgeMsg.getD p 0 := by
  have hdegree : (buildCsr code).rowPtr.getD (r + 1) 0 - (buildCsr code).rowPtr.getD r 0
      = (csrRow code r).length := by
    rw [rowPtr_succ hr, Nat.add_sub_cancel_left]
  rw [ldpcRow] at hs'
  simp only [hdegree] at hs'
  rw [rowPtr_succ hr] at hedge ⊢
  by_cases hzero : (csrRow code r).length = 0
  · rw [if_pos hzero] at hs'
    subst hs'
    exact ⟨hs, fun vn _ h => h, fun d hd => absurd hd (by omega), fun p _ => rfl⟩
  rw [if_neg hzero] at hs'
  generalize ha : (buildCsr code).rowPtr.getD r 0 = a at *
  have hcolIdx : ∀ d < (csrRow code r).length,
      (buildCsr code).colIdx.getD (a + d) 0 = (csrRow code r).getD d 0 := by
    intro d hd
    rw [← ha]
    exact hcode.colIdx_getD hr hd
  have hcol : ∀ d < (csrRow code r).length, (csrRow code r).getD d 0 < code.n := by
    intro d hd
    rw [List.getD_eq_getElem?_getD, List.getElem?_eq_getElem hd, Option.getD_some]
    exact (hcode.csrEdges_bound (by omega) (mem_bucket.mp (List.getElem_mem hd))).2
  have hgather : ∀ d < (csrRow code r).length,
      ldpcGather (buildCsr code) s a d = s.vnLlr.getD ((csrRow code r).getD d 0) 0 := by
    intro d hd
    rw [ldpcGather, hcolIdx d hd, hedge (a + d) (by omega) (by omega), sub_zero]
  have hprod : ∏ i ∈ Finset.range (csrRow code r).length, bitSign (c ((csrRow code r).getD i 0))
      = 1 := by
    rw [prod_bitSign, heven]
    rfl
  -- what comes in is at most `D` operations deep, and not at all when one column was not received
  have hmsg := fun d (hd : d < (csrRow code r).length) =>
    extrinsic_spec hrule (v := ldpcGather (buildCsr code) s a)
      (c := fun d => c ((csrRow code r).getD d 0)) hd hshort le_rfl hprod fun i hi _ => by
        rw [hgather i hi]
        exact ⟨hs.agrees _ (hcol i hi), hs.deep _ (hcol i hi)⟩
  have hdeep : ∀ d < (csrRow code r).length, ¬S ((csrRow code r).getD d 0) →
      Deep level D (extrinsic boxplus 0 (ldpcGather (buildCsr code) s a)
        (csrRow code r).length d) := by
    intro d hd hS
    have h := extrinsic_spec hrule (v := ldpcGather (buildCsr code) s a)
      (c := fun d => c ((csrRow code r).getD d 0)) hd hshort (Nat.zero_le D) hprod fun i hi hid => by
        rw [hgather i hi]
        exact ⟨hs.agrees _ (hcol i hi), (hs.strong _ (hcol i hi) (hone d hd hS i hi hid)).2⟩
    rw [Nat.zero_add] at h
    exact h.2.1
  obtain ⟨hbel, hmono, hlearn, hframe⟩ := ldpcScatter_run hs (csrRow code r).length
    (fun d hd => by rw [hcolIdx d hd]; exact hcol d hd)
    (fun d hd => hedge (a + d) (by omega) (by omega))
    (fun d hd => by rw [hcolIdx d hd]; exact (hmsg d hd).1)
    (fun d hd => by rw [hcolIdx d hd]; exact hdeep d hd) hs'
  refine ⟨hbel, hmono, fun d hd htwo hothers => ?_, fun p hp => hframe p (Or.inr hp)⟩
  have hset := hlearn d hd
  rw [hcolIdx d hd] at hset
  exact hset ((hmsg d hd).2.2 htwo fun i hi hid => by rw [hgather i hi]; exact hothers i hi hid)

end

/-! ### One pass -/

/-- Row `r` ends in parity bit `r`. -/
theorem csrRow_last {code : LdpcCode} {r : ℕ} (hr : r < code.m) :
    0 < (csrRow code r).length ∧
      (csrRow code r).getD ((csrRow code r).length - 1) 0 = code.k + r := by
  rw [csrRow_split hr, List.length_append, stairRow]
  by_cases hr0 : r = 0
  · rw [if_pos hr0, hr0, List.length_singleton, Nat.add_sub_cancel, List.getD_eq_getElem?_getD,
      List.getElem?_append_right le_rfl, Nat.sub_self]
    exact ⟨Nat.succ_pos _, rfl⟩
  · rw [if_neg hr0, List.getD_eq_getElem?_getD, List.getElem?_append_right (by simp)]
    simp

/-- Its other columns are information bits and the parity bit before. -/
theorem LdpcCode.WellFormed.csrRow_others {code : LdpcCode} (hcode : code.WellFormed) {r i : ℕ}
    (hr : r < code.m) (hi : i < (csrRow code r).length - 1) :
    (csrRow code r).getD i 0 < code.k ∨ 0 < r ∧ (csrRow code r).getD i 0 = code.k + r - 1 := by
  rw [csrRow_split hr, List.length_append, stairRow] at hi
  rw [csrRow_split hr, stairRow, List.getD_eq_getElem?_getD]
  by_cases hinfo : i < (bucket (infoEdges code) r).length
  · rw [List.getElem?_append_left hinfo, List.getElem?_eq_getElem hinfo]
    exact Or.inl (hcode.infoEdges_bound (mem_bucket.mp (List.getElem_mem hinfo))).2
  · have hr0 : r ≠ 0 := by
      rintro rfl
      rw [if_pos rfl, List.length_singleton] at hi
      omega
    rw [if_neg hr0] at hi ⊢
    have hieq : i = (bucket (infoEdges code) r).length := by
      simp only [List.length_cons, List.length_nil] at hi
      omega
    rw [hieq, List.getElem?_append_right le_rfl, Nat.sub_self]
    exact Or.inr ⟨Nat.pos_of_ne_zero hr0, rfl⟩

omit [Field R] [LinearOrder R] [IsStrictOrderedRing R] in
/-- At most one column of a row is missing when every information bit and one of any two
neighbouring parity bits is there. -/
theorem LdpcCode.WellFormed.csrRow_one {code : LdpcCode} (hcode : code.WellFormed)
    (hinfo : ∀ vn < code.k, S vn)
    (hparity : ∀ r < code.m, S (code.k + r) ∨ r = 0 ∨ S (code.k + r - 1)) {r : ℕ} (hr : r < code.m)
    {d : ℕ} (hd : d < (csrRow code r).length) (hS : ¬S ((csrRow code r).getD d 0)) {i : ℕ}
    (hi : i < (csrRow code r).length) (hid : i ≠ d) : S ((csrRow code r).getD i 0) := by
  have hlen : (csrRow code r).length
      = (bucket (infoEdges code) r).length + if r = 0 then 1 else 2 := by
    rw [csrRow_split hr, List.length_append, stairRow]
    split <;> rfl
  have hlow : ∀ j < (bucket (infoEdges code) r).length, S ((csrRow code r).getD j 0) := by
    intro j hj
    refine hinfo _ ?_
    rw [csrRow_split hr, List.getD_eq_getElem?_getD, List.getElem?_append_left hj,
      List.getElem?_eq_getElem hj]
    exact (hcode.infoEdges_bound (mem_bucket.mp (List.getElem_mem hj))).2
  have hhigh : ∀ j, (bucket (infoEdges code) r).length ≤ j → (csrRow code r).getD j 0
      = (stairRow code r).getD (j - (bucket (infoEdges code) r).length) 0 := by
    intro j hj
    rw [csrRow_split hr, List.getD_append_right _ _ _ _ hj]
  by_contra hSi
  have hd' : (bucket (infoEdges code) r).length ≤ d := not_lt.mp fun h => hS (hlow d h)
  have hi' : (bucket (infoEdges code) r).length ≤ i := not_lt.mp fun h => hSi (hlow i h)
  rw [hhigh d hd'] at hS
  rw [hhigh i hi'] at hSi
  generalize (bucket (infoEdges code) r).length = len at *
  by_cases hr0 : r = 0
  · rw [if_pos hr0] at hlen
    omega
  · rw [if_neg hr0] at hlen
    rw [stairRow, if_neg hr0] at hS hSi
    have hpair := hparity r hr
    have hcases : d - len = 0 ∧ i - len = 1 ∨ d - len = 1 ∧ i - len = 0 := by omega
    rcases hcases with ⟨hd0, hi1⟩ | ⟨hd1, hi0⟩
    · rw [hd0] at hS
      rw [hi1] at hSi
      exact hpair.elim hSi fun h => h.elim hr0 hS
    · rw [hd1] at hS
      rw [hi0] at hSi
      exact hpair.elim hS fun h => h.elim hr0 hSi

section
variable {code : LdpcCode} (hcode : code.WellFormed) {boxplus : R → R → R}
  (hrule : CheckRule boxplus level D) (hshort : ∀ r < code.m, (csrRow code r).length ≤ D + 2)
include hcode hrule hshort

/-- **One pass.**  When every information bit was received and no two neighbouring parity bits are
missing, the pass settles every parity bit, except the first one when its row has nothing
else. -/
theorem ldpcPass_spec {c : ℕ → Bool} {s : LdpcState R} (hs : Believes level D S c code.n s)
    (heven : ∀ r < code.m, xorAll ((csrRow code r).map c) = false)
    (hedge : ∀ p, s.edgeMsg.getD p 0 = 0) (hinfo : ∀ vn < code.k, S vn)
    (hparity : ∀ r < code.m, S (code.k + r) ∨ r = 0 ∨ S (code.k + r - 1))
    (n : ℕ) (hn : n ≤ code.m) {s' : LdpcState R}
    (hs' : ldpcPass boxplus (buildCsr code) n s = s') :
    Believes level D S c code.n s' ∧ (∀ vn < code.n, Settled c s vn → Settled c s' vn) ∧
      (∀ r < n, r ≠ 0 ∨ 2 ≤ (csrRow code r).length → Settled c s' (code.k + r)) ∧
      ∀ p, (buildCsr code).rowPtr.getD n 0 ≤ p → s'.edgeMsg.getD p 0 = 0 := by
  have hn_eq : code.n = code.k + code.m := by
    rw [hcode.m_eq, hcode.n_eq]
  induction n generalizing s' with
  | zero =>
    subst hs'
    exact ⟨hs, fun vn _ h => h, fun r hr => absurd hr (Nat.not_lt_zero r), fun p _ => hedge p⟩
  | succ r ih =>
    rw [ldpcPass, List.range_succ, List.foldl_append, List.foldl_cons, List.foldl_nil,
      ← ldpcPass] at hs'
    obtain ⟨hbel, hmono, hpar, hfree⟩ := ih (by omega) rfl
    generalize ldpcPass boxplus (buildCsr code) r s = mid at *
    have hr : r < code.m := by omega
    obtain ⟨hbel', hmono', hlearn, hframe⟩ := ldpcRow_spec hcode hrule hbel hr (hshort r hr)
      (fun _ hd hS _ hi hid => hcode.csrRow_one hinfo hparity hr hd hS hi hid) (heven r hr)
      (fun p hp _ => hfree p hp) hs'
    refine ⟨hbel', fun vn hvn h => hmono' vn hvn (hmono vn hvn h), fun i hi hbig => ?_,
      fun p hp => ?_⟩
    · rcases Nat.lt_succ_iff_lt_or_eq.mp hi with hlt | rfl
      · exact hmono' _ (by omega) (hpar i hlt hbig)
      rcases hparity i hr with hknown | hmissing
      · exact (hbel'.strong _ (by omega) hknown).1
      -- the row has another column, and all its other columns are known
      obtain ⟨hpos, hlast⟩ := csrRow_last hr
      have htwo : 2 ≤ (csrRow code i).length := by
        rcases hbig with hi0 | htwo
        · rw [csrRow_split hr, stairRow, if_neg hi0, List.length_append]
          simp
        · exact htwo
      rw [← hlast]
      apply hlearn _ (by omega) htwo
      intro j hj hjd
      rcases hcode.csrRow_others hr (show j < (csrRow code i).length - 1 by omega)
        with hlow | ⟨hi0, hprev⟩
      · exact (hbel.strong _ (by omega) (hinfo _ hlow)).1
      · rw [hprev]
        exact (hbel.strong _ (by omega) (hmissing.resolve_left (by omega))).1
    · have hle : (buildCsr code).rowPtr.getD r 0 ≤ p := by
        rw [rowPtr_succ hr] at hp
        omega
      rw [hframe p hp, hfree p hle]

/-- **The hard decisions behind such a pass** are the codeword. -/
theorem ldpcPass_decides {c : ℕ → Bool} {s : LdpcState R} (hs : Believes level D S c code.n s)
    (heven : ∀ r < code.m, xorAll ((csrRow code r).map c) = false)
    (hedge : ∀ p, s.edgeMsg.getD p 0 = 0) (hinfo : ∀ vn < code.k, S vn)
    (hparity : ∀ r < code.m, S (code.k + r) ∨ r = 0 ∨ S (code.k + r - 1))
    {s' : LdpcState R} (hs' : ldpcPass boxplus (buildCsr code) code.m s = s') {vn : ℕ}
    (hvn : vn < code.n) : s'.neg vn = c vn := by
  have hn_eq : code.n = code.k + code.m := by
    rw [hcode.m_eq, hcode.n_eq]
  obtain ⟨hbel, hmono, hpar, -⟩ :=
    ldpcPass_spec hcode hrule hshort hs heven hedge hinfo hparity code.m le_rfl hs'
  apply (hbel.agrees vn hvn).decide_neg
  intro hzero
  by_cases hlow : vn < code.k
  · exact absurd hzero (hbel.strong vn hvn (hinfo vn hlow)).1.ne_zero
  obtain ⟨r, hr, rfl⟩ : ∃ r < code.m, vn = code.k + r := ⟨vn - code.k, by omega, by omega⟩
  by_cases hbig : r ≠ 0 ∨ 2 ≤ (csrRow code r).length
  · exact absurd hzero (hpar r hr hbig).ne_zero
  · -- the first row has this column only, so the bit is zero
    push Not at hbig
    obtain ⟨rfl, hlone⟩ := hbig
    have hbit := heven 0 hr
    rw [csrRow_split hr, stairRow, if_pos rfl] at hlone hbit
    rw [List.length_append, List.length_singleton] at hlone
    rw [List.length_eq_zero_iff.mp (show (bucket (infoEdges code) 0).length = 0 by omega)] at hbit
    simpa using hbit

/-- **Decoding without bit errors.**  Every belief agrees with a codeword, the information bits
are known and no two neighbouring parity bits are missing: the first iteration converges. -/
theorem ldpcDecode_of_signs {dec : LdpcDecoder} (hdec : dec.code = code)
    (hcsr : dec.csr = buildCsr code) (hiter : 1 ≤ dec.maxIter) {cancel : ℕ → Bool}
    (hcancel : cancel 0 = false) {c : List Bool} (hc : c.length = code.n)
    (hchecks : ChecksSatisfied code c) {llr : List R}
    (hagrees : ∀ vn < code.n, Agrees (c.getD vn false) (llr.getD vn 0))
    (hdeep : ∀ vn < code.n, Deep level 0 (llr.getD vn 0))
    (hinfo : ∀ vn < code.k, Knows (c.getD vn false) (llr.getD vn 0))
    (hparity : ∀ r < code.m, Knows (c.getD (code.k + r) false) (llr.getD (code.k + r) 0) ∨ r = 0 ∨
      Knows (c.getD (code.k + r - 1) false) (llr.getD (code.k + r - 1) 0))
    (output : List Bool) :
    ∃ vnLlr, ldpcDecode boxplus dec cancel llr output
      = { ret := 0, output := c.take code.k, iterUsed := 1, vnLlr := vnLlr } := by
  subst hdec
  have hn_eq : dec.code.n = dec.code.k + dec.code.m := by
    rw [hcode.m_eq, hcode.n_eq]
  have hread : ∀ vn < dec.code.n,
      ((List.range dec.code.n).map fun i => llr.getD i 0).getD vn 0 = llr.getD vn 0 := by
    intro vn hvn
    rw [getD_map_range, if_pos hvn]
  have heven : ∀ r < dec.code.m,
      xorAll ((csrRow dec.code r).map fun vn => c.getD vn false) = false := by
    intro r hr
    rw [← hcode.csrRowParity_eq _ hr]
    exact hchecks r hr
  have hedge : ∀ p, (List.replicate (buildCsr dec.code).numEdges (0 : R)).getD p 0 = 0 := by
    intro p
    exact getD_replicate_self _ p
  obtain ⟨s, hpass⟩ : ∃ s, ldpcPass boxplus dec.csr dec.code.m
      { vnLlr := (List.range dec.code.n).map fun i => llr.getD i 0
        edgeMsg := List.replicate dec.csr.numEdges 0 } = s := ⟨_, rfl⟩
  have hpass' := hpass
  rw [hcsr] at hpass'
  -- every hard decision is the bit of the codeword
  have hneg : ∀ vn < dec.code.n, s.neg vn = c.getD vn false := by
    intro vn hvn
    refine ldpcPass_decides hcode hrule hshort (S := fun vn => Knows (c.getD vn false) (llr.getD vn 0))
      ⟨by rw [List.length_map, List.length_range], ?_, ?_, ?_⟩ heven hedge hinfo hparity hpass' hvn
    · intro vn hvn
      rw [hread vn hvn]
      exact hagrees vn hvn
    · intro vn hvn
      rw [hread vn hvn]
      exact deepen (fun _ _ => Deep.succ hrule.antitone) (Nat.zero_le D) (hdeep vn hvn)
    · intro vn hvn hknown
      rw [hread vn hvn]
      exact ⟨hknown, hdeep vn hvn⟩
  have hconv : ldpcConverged dec.csr dec.code.m s = true := by
    rw [ldpcConverged, List.all_eq_true]
    intro r hr
    have hr := List.mem_range.mp hr
    rw [hcsr, hcode.csrRowParity_congr hneg hr, Bool.not_eq_true']
    exact hchecks r hr
  refine ⟨s.vnLlr, ?_⟩
  rw [ldpcDecode_of_first_pass output hiter hcancel hpass hconv]
  congr 1
  have hlen : (c.take dec.code.k).length = dec.code.k := by
    rw [List.length_take, hc]
    omega
  apply list_ext_getD false (by rw [List.length_map, List.length_range, hlen])
  intro j hj
  rw [List.length_map, List.length_range] at hj
  rw [getD_map_range, if_pos hj, hneg j (by omega), getD_take hj]

end

end

end

end OpenVlsnr
