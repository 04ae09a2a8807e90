import OpenVlsnr.DelayLine
import OpenVlsnr.NearestWord
import OpenVlsnr.PlField
import OpenVlsnr.Radix2

/-!
# The physical-layer header

The start-of-frame sequence and the PLS code of `plheader_gen.c`: `dvbs2x_plheader_generate` and
`dvbs2x_plheader_recover`.

Without its scrambling sequence the PLS code word is linear in the code (`plsLinear_xor`), so the
distance of two words is the weight of a third, and words whose codes differ in the low seven bits
are at least `24` apart (`plsWord_distance`).  What the receiver sees of a header with negated
symbols is a word (`plscSoft_negate`); the search for the best correlation then ends with the code
that was sent, up to bit 7 (`plheaderRecover_corrects`).
-/

namespace OpenVlsnr

open NearestWord

/-! ### Constants -/

abbrev sofLen : ℕ := 26
abbrev plscLen : ℕ := 64

/-- `sof_sequence`. -/
def sofSequence : List Bool :=
  [0, 1, 1, 0, 0, 0, 1, 1, 0, 1, 0, 0, 1, 0,
    1, 1, 1, 0, 1, 0, 0, 0, 0, 0, 1, 0].map (· = 1)

/-- `pls_gen`. -/
def plsGen : List (BitVec 32) :=
  [0x90AC2DDD, 0x55555555, 0x33333333, 0x0F0F0F0F,
    0x00FF00FF, 0x0000FFFF, 0xFFFFFFFF]

/-- `pls_scram`. -/
def plsScram : List Bool :=
  [0, 1, 1, 1, 0, 0, 0, 1, 1, 0, 0, 1, 1, 1, 0, 1, 1, 0, 0, 0, 0, 0,
    1, 1, 1, 1, 0, 0, 1, 0, 0, 1, 0, 1, 0, 1, 0, 0, 1, 1, 0, 1, 0, 0,
    0, 0, 1, 0, 0, 0, 1, 0, 1, 1, 0, 1, 1, 1, 1, 1, 1, 0, 1, 0].map (· = 1)

/-! ### The PLS code -/

/-- The rows that the bits `0x80` to `0x02` of the code select. -/
def plsTemp (code : ℕ) : BitVec 32 :=
  (List.range 7).foldl
    (fun temp k => if code.testBit (7 - k) then temp ^^^ plsGen.getD k 0 else temp) 0

/-- `temp & bit` in round `m`. -/
def plsBit (temp : BitVec 32) (m : ℕ) : Bool :=
  temp &&& (0x80000000#32 >>> m) ≠ 0

/-- `pls_encode`. -/
def plsEncode (code : ℕ) : List Bool :=
  let temp := plsTemp code
  (interleavePairs (plsBit temp) (fun m => plsBit temp m ^^ code.testBit 0) 32).zipWith
    (· ^^ ·) plsScram

section
variable {R : Type*} [Field R] [LinearOrder R] (const : Sqrt2 R)

/-- `pl_const`. -/
def plConst (phase : ℕ) (b : Bool) : Cplx R :=
  match phase with
  | 0 => if b then ⟨-const.half, -const.half⟩ else ⟨const.half, const.half⟩
  | 1 => if b then ⟨const.half, -const.half⟩ else ⟨-const.half, const.half⟩
  | 2 => if b then ⟨const.half, -const.half⟩ else ⟨-const.half, const.half⟩
  | _ => if b then ⟨const.half, const.half⟩ else ⟨-const.half, -const.half⟩

/-- `dvbs2x_plheader_generate`. -/
def plheaderGenerate (plsCode : ℕ) : List (Cplx R) :=
  let vlsnr := plsCode.testBit 7
  let allBits := sofSequence ++ plsEncode (plsCode &&& 0xFF)
  (List.range plheaderLen).map fun n =>
    let b := allBits.getD n false
    let phase := if n < sofLen then n % 2 else n % 2 + if vlsnr then 2 else 0
    plConst const phase b

/-- `plsc_soft`. -/
def plscSoft (symbols : List (Cplx R)) : List R :=
  (List.range plscLen).map fun n =>
    let i := sofLen + n
    let phase := i % 2 + 2
    (symbols.getD i 0).i * (plConst const phase false).i +
      (symbols.getD i 0).q * (plConst const phase false).q

/-- `corr` of a candidate. -/
def plsCorr (soft : List R) (code : ℕ) : R :=
  let enc := plsEncode code
  (List.range plscLen).foldl
    (fun corr n => corr + soft.getD n 0 * if enc.getD n false then -1 else 1) 0

/-- `dvbs2x_plheader_recover`: what it returns, and `*pls_code`. -/
def plheaderRecover (symbols : List (Cplx R)) : ℤ × ℕ :=
  let soft := plscSoft const symbols
  let best := (List.range 256).foldl (keepBest (plsCorr soft)) (-10 ^ 30, 0)
  (ok, best.2 &&& 0x7F)

/-! ### Errors -/

omit [LinearOrder R] in
/-- The header with the PLS symbols at `errors` negated. -/
def negateSymbols (errors : Finset (Fin plscLen)) (symbols : List (Cplx R)) : List (Cplx R) :=
  symbols.mapIdx fun i s => if ∃ n ∈ errors, i = sofLen + n then ⟨-s.i, -s.q⟩ else s

end

/-! ### Linearity -/

theorem xor_select (p q : Bool) (a b g : BitVec 32) :
    (if p ^^ q then a ^^^ b ^^^ g else a ^^^ b)
      = (if p then a ^^^ g else a) ^^^ (if q then b ^^^ g else b) := by
  refine BitVec.eq_of_getLsbD_eq fun i _ => ?_
  cases p <;> cases q <;> simp <;> grind

/-- Rows selected by the bits of an exclusive or. -/
theorem foldl_select_xor (row : ℕ → BitVec 32) (bit : ℕ → ℕ) (a b : ℕ) (l : List ℕ)
    (s t : BitVec 32) :
    l.foldl (fun temp k => if (a ^^^ b).testBit (bit k) then temp ^^^ row k else temp) (s ^^^ t)
      = l.foldl (fun temp k => if a.testBit (bit k) then temp ^^^ row k else temp) s ^^^
        l.foldl (fun temp k => if b.testBit (bit k) then temp ^^^ row k else temp) t := by
  induction l generalizing s t with
  | nil => rfl
  | cons k l ih =>
    rw [List.foldl_cons, List.foldl_cons, List.foldl_cons, Nat.testBit_xor, xor_select, ih]

theorem plsTemp_xor (a b : ℕ) : plsTemp (a ^^^ b) = plsTemp a ^^^ plsTemp b :=
  foldl_select_xor (plsGen.getD · 0) (7 - ·) a b (List.range 7) 0 0

/-- The mask of a round is one bit, from the top down. -/
theorem plsMask_eq : ∀ m < 32, 0x80000000#32 >>> m = BitVec.twoPow 32 (31 - m) := by decide

theorem plsBit_eq_getLsbD (temp : BitVec 32) {m : ℕ} (hm : m < 32) :
    plsBit temp m = temp.getLsbD (31 - m) := by
  have hne : BitVec.twoPow 32 (31 - m) ≠ 0#32 := by
    rw [← plsMask_eq m hm]
    revert m
    decide
  rw [plsBit, plsMask_eq m hm, BitVec.and_twoPow]
  cases temp.getLsbD (31 - m) <;> simp [hne]

theorem plsBit_xor (s t : BitVec 32) {m : ℕ} (hm : m < 32) :
    plsBit (s ^^^ t) m = (plsBit s m ^^ plsBit t m) := by
  rw [plsBit_eq_getLsbD _ hm, plsBit_eq_getLsbD _ hm, plsBit_eq_getLsbD _ hm, BitVec.getLsbD_xor]

/-- The code word before the scrambling sequence. -/
def plsLinear (code n : ℕ) : Bool :=
  plsBit (plsTemp code) (n / 2) ^^ (decide (n % 2 = 1) && code.testBit 0)

theorem plsLinear_xor (a b : ℕ) {n : ℕ} (hn : n < plscLen) :
    plsLinear (a ^^^ b) n = (plsLinear a n ^^ plsLinear b n) := by
  have hhalf : n / 2 < 32 := Nat.div_lt_of_lt_mul hn
  rw [plsLinear, plsTemp_xor, plsBit_xor _ _ hhalf, Nat.testBit_xor, plsLinear, plsLinear]
  cases decide (n % 2 = 1) <;> grind

/-- The word that is sent for a code. -/
def plsWord (code : ℕ) (n : Fin plscLen) : Bool :=
  (plsEncode code).getD n false

theorem plsLinear_even (code m : ℕ) : plsLinear code (2 * m) = plsBit (plsTemp code) m := by
  rw [plsLinear, Nat.mul_div_cancel_left m two_pos, Nat.mul_mod_right]
  simp

theorem plsLinear_odd (code m : ℕ) :
    plsLinear code (2 * m + 1) = (plsBit (plsTemp code) m ^^ code.testBit 0) := by
  rw [plsLinear, Nat.mul_add_mod, Nat.mul_add_div two_pos]
  simp

theorem plsPairs_eq (code : ℕ) :
    interleavePairs (plsBit (plsTemp code)) (fun m => plsBit (plsTemp code) m ^^ code.testBit 0) 32
      = (List.range plscLen).map (plsLinear code) := by
  rw [← interleavePairs_eq (plsLinear code) 32]
  congr 1
  · funext m
    exact (plsLinear_even code m).symm
  · funext m
    exact (plsLinear_odd code m).symm

theorem plsWord_eq (code : ℕ) (n : Fin plscLen) :
    plsWord code n = (plsLinear code n ^^ plsScram.getD n false) := by
  have hscram : (n : ℕ) < plsScram.length := n.isLt
  rw [plsWord, plsEncode, plsPairs_eq, List.getD_eq_getElem?_getD, List.getElem?_zipWith,
    List.getElem?_map, List.getElem?_range n.isLt, List.getD_eq_getElem?_getD, List.getElem?_eq_getElem hscram]
  rfl

/-! ### Distance -/

/-- The weights of the sums of rows. -/
theorem plsTemp_weight : ∀ d < 256, d % 128 ≠ 0 → d.testBit 0 = false →
    12 ≤ ∑ m ∈ Finset.range 32, if plsBit (plsTemp d) m = true then 1 else 0 := by
  decide +kernel

/-- A word whose low seven code bits are not all zero: the lowest one makes the halves of each pair
differ; without it they are two equal words. -/
theorem plsLinear_weight {d : ℕ} (hd : d < 256) (hlow : d % 128 ≠ 0) :
    24 ≤ (Finset.univ.filter fun n : Fin plscLen => plsLinear d n = true).card := by
  rw [Finset.card_filter, ← Finset.sum_range fun n => if plsLinear d n = true then 1 else 0,
    Radix2.sum_range_two_mul _ 32]
  simp only [plsLinear_even, plsLinear_odd]
  cases hbit : d.testBit 0 with
  | false =>
    have hrows := plsTemp_weight d hd hlow hbit
    simp only [Bool.xor_false]
    omega
  | true =>
    have hpair : ∀ m, (if plsBit (plsTemp d) m = true then 1 else 0) +
        (if (plsBit (plsTemp d) m ^^ true) = true then 1 else 0) = 1 := by
      intro m
      cases plsBit (plsTemp d) m <;> rfl
    rw [← Finset.sum_add_distrib, Finset.sum_congr rfl fun m _ => hpair m, Finset.sum_const,
      Finset.card_range]
    decide

/-- **The distance of the code**: words that differ in more than bit 7 of their code differ in 24
positions at least. -/
theorem plsWord_distance {a b : ℕ} (ha : a < 256) (hb : b < 256) (hne : a % 128 ≠ b % 128) :
    24 ≤ hammingDist (plsWord a) (plsWord b) := by
  have hlow : (a ^^^ b) % 128 ≠ 0 := by
    intro h
    rw [show 128 = 2 ^ 7 from rfl, Nat.xor_mod_two_pow] at h
    have hcancel := congrArg (· ^^^ b % 2 ^ 7) h
    simp only [Nat.xor_assoc, Nat.xor_self, Nat.xor_zero, Nat.zero_xor] at hcancel
    exact hne hcancel
  refine (plsLinear_weight (Nat.xor_lt_two_pow (n := 8) ha hb) hlow).trans_eq ?_
  refine congrArg Finset.card (Finset.filter_congr fun n _ => ?_)
  rw [plsWord_eq, plsWord_eq, plsLinear_xor a b n.isLt]
  cases plsLinear a n <;> cases plsLinear b n <;> cases plsScram.getD n false <;> simp

/-! ### Reception -/

section
variable {R : Type*} [Field R] [LinearOrder R] (const : Sqrt2 R)

/-- The two points of a phase are antipodal. -/
theorem plConst_corr (phase : ℕ) (b : Bool) :
    (plConst const phase b).i * (plConst const phase false).i +
      (plConst const phase b).q * (plConst const phase false).q
      = 2 * const.half ^ 2 * boolSign b := by
  unfold plConst
  split <;> cases b <;> simp [boolSign] <;> ring

theorem plConst_neg (phase : ℕ) (b : Bool) :
    (⟨-(plConst const phase b).i, -(plConst const phase b).q⟩ : Cplx R)
      = plConst const phase (b ^^ true) := by
  unfold plConst
  split <;> cases b <;> simp

/-- Symbol `n` of the PLS code of a VL-SNR header. -/
theorem plheaderGenerate_pls {plsCode : ℕ} (hset : plsCode.testBit 7 = true) (n : Fin plscLen) :
    (plheaderGenerate const plsCode).getD (sofLen + n) 0
      = plConst const ((sofLen + n) % 2 + 2) (plsWord (plsCode &&& 0xFF) n) := by
  have hn := n.isLt
  have hlt : sofLen + (n : ℕ) < plheaderLen := Nat.add_lt_add_left hn sofLen
  have hsof : sofSequence.length = sofLen := rfl
  rw [plheaderGenerate]
  dsimp only
  rw [getD_map_range, if_pos hlt, if_neg (by omega), hset, if_pos rfl,
    List.getD_append_right _ _ _ _ (by omega), hsof, Nat.add_sub_cancel_left, plsWord]

omit [LinearOrder R] in
theorem negateSymbols_pls (errors : Finset (Fin plscLen)) (symbols : List (Cplx R))
    (n : Fin plscLen) (hn : sofLen + n < symbols.length) :
    (negateSymbols errors symbols).getD (sofLen + n) 0
      = if n ∈ errors then ⟨-(symbols.getD (sofLen + n) 0).i, -(symbols.getD (sofLen + n) 0).q⟩
        else symbols.getD (sofLen + n) 0 := by
  have hmem : (∃ k ∈ errors, sofLen + (n : ℕ) = sofLen + k) ↔ n ∈ errors := by
    constructor
    · rintro ⟨k, hk, h⟩
      rwa [Fin.ext (Nat.add_left_cancel h)]
    · exact fun h => ⟨n, h, rfl⟩
  rw [negateSymbols, List.getD_eq_getElem?_getD, List.getElem?_mapIdx,
    List.getElem?_eq_getElem hn, List.getD_eq_getElem _ _ hn]
  simp only [hmem, Option.map_some, Option.getD_some]

/-- **What the receiver sees** of a header with negated symbols: the word of the code with the bits
of these symbols flipped. -/
theorem plscSoft_negate {plsCode : ℕ} (hset : plsCode.testBit 7 = true)
    (errors : Finset (Fin plscLen)) (n : Fin plscLen) :
    (plscSoft const (negateSymbols errors (plheaderGenerate const plsCode))).getD n 0
      = 2 * const.half ^ 2 * boolSign (plsWord (plsCode &&& 0xFF) n ^^ decide (n ∈ errors)) := by
  have hlt : sofLen + (n : ℕ) < (plheaderGenerate const plsCode).length := by
    rw [plheaderGenerate, List.length_map, List.length_range]
    exact Nat.add_lt_add_left n.isLt sofLen
  rw [plscSoft, getD_map_range, if_pos n.isLt]
  dsimp only
  rw [negateSymbols_pls errors _ n hlt, plheaderGenerate_pls const hset]
  by_cases hmem : n ∈ errors
  · rw [if_pos hmem, plConst_neg, plConst_corr, decide_eq_true hmem]
  · rw [if_neg hmem, plConst_corr, decide_eq_false hmem, Bool.xor_false]

omit [LinearOrder R] in
/-- A received word as the signs of its bits, all of one strength. -/
theorem plsCorr_eq {soft : List R} {strength : R} {y : Fin plscLen → Bool}
    (hsoft : ∀ n : Fin plscLen, soft.getD n 0 = strength * boolSign (y n)) (code : ℕ) :
    plsCorr soft code = strength * ∑ n, boolSign (y n) * boolSign (plsWord code n) := by
  rw [plsCorr, DelayLine.foldl_add_eq_sum, zero_add, Finset.sum_range, Finset.mul_sum]
  refine Finset.sum_congr rfl fun n _ => ?_
  rw [hsoft n, mul_assoc]
  rfl

/-- Flipping bits moves a word by their number. -/
theorem hammingDist_flip (x : Fin plscLen → Bool) (errors : Finset (Fin plscLen)) :
    hammingDist (fun n => x n ^^ decide (n ∈ errors)) x = errors.card := by
  refine congrArg Finset.card (Finset.ext fun n => ?_)
  have hflip : (x n ^^ decide (n ∈ errors)) ≠ x n ↔ n ∈ errors := by
    by_cases hn : n ∈ errors <;> cases x n <;> simp [hn]
  rw [Finset.mem_filter]
  exact (and_iff_right (Finset.mem_univ n)).trans hflip

variable [IsStrictOrderedRing R]

/-- **Recovery corrects eleven errors.**  Whatever PLS symbols of a VL-SNR header are negated, up to
eleven of them: the code that correlates best has the low seven bits of the one sent. -/
theorem plheaderRecover_corrects {plsCode : ℕ} (hset : plsCode.testBit 7 = true)
    (errors : Finset (Fin plscLen)) (hfew : errors.card ≤ 11) :
    plheaderRecover const (negateSymbols errors (plheaderGenerate const plsCode))
      = (ok, plsCode % 128) := by
  set code := plsCode &&& 0xFF with hcode
  set soft := plscSoft const (negateSymbols errors (plheaderGenerate const plsCode)) with hsoft
  have hmod : code = plsCode % 256 := Nat.and_two_pow_sub_one_eq_mod plsCode 8
  have hlt : code < 256 := hmod.trans_lt (Nat.mod_lt _ (by decide))
  have hstrength : 0 < 2 * const.half ^ 2 := by have := const.half_pos; positivity
  have hscore := plsCorr_eq (plscSoft_negate const hset errors)
  have hdist := hammingDist_flip (plsWord code) errors
  -- the code that was sent beats the value the search starts with
  have hstart : (-10 ^ 30 : R) < plsCorr soft code := by
    have hcard : (errors.card : R) ≤ 11 := by exact_mod_cast hfew
    rw [hscore, sum_boolSign_mul, hdist]
    have hpos : (0 : R) < (plscLen : ℕ) - 2 * errors.card := by
      push_cast
      linarith
    have hneg : (-10 ^ 30 : R) < 0 := by norm_num
    exact hneg.trans (mul_pos hstrength hpos)
  have hwin : ((List.range 256).foldl (keepBest (plsCorr soft)) (-10 ^ 30, 0)).2 % 128
      = code % 128 := by
    refine keepBest_wins (P := fun c => c % 128 = code % 128) _ (List.mem_range.mpr hlt) hstart ?_
    intro c hc hne
    rw [hscore, hscore]
    exact mul_lt_mul_of_pos_left (corr_lt_of_near (hdist.trans_le hfew)
      (plsWord_distance hlt (List.mem_range.mp hc) (Ne.symm hne)) (by decide)) hstrength
  rw [plheaderRecover, ← hsoft, show 0x7F = 2 ^ 7 - 1 from rfl, Nat.and_two_pow_sub_one_eq_mod]
  refine congrArg _ (hwin.trans ?_)
  rw [hmod, Nat.mod_mod_of_dvd _ (by decide)]

end

/-- The first eleven symbols of the header of VL-SNR set 1. -/
theorem plheaderRecover_corrects_set1 :
    plheaderRecover Sqrt2.exact (negateSymbols (Finset.univ.filter fun n => (n : ℕ) < 11)
      (plheaderGenerate Sqrt2.exact 129)) = (ok, 1) :=
  plheaderRecover_corrects Sqrt2.exact (by decide) _ (by decide)

end OpenVlsnr
