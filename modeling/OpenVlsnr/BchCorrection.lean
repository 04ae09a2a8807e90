import OpenVlsnr.BchDecode
import OpenVlsnr.BchGenerator
import OpenVlsnr.PowerSums

/-!
# What the BCH decoder returns

The arrays of the Berlekamp-Massey loop are power series over the field of the code, and each
step is one of the three rules of the abstract algorithm (`bmStep_spec`).  The Chien search
finds the positions whose locator is a root of the result (`mem_chienPositions`).

If the word is within distance 12 of a codeword, the locator found is the one of the errors and
the search finds exactly them (`bchDecode_of_power_sums`).  If the search finds as many
positions as the length asks for, the syndromes are power sums of those positions, and flipping
them leaves a codeword (`syndromes_of_full_search`).
-/

namespace OpenVlsnr

open Finset

/-! ### Words and their syndromes -/

/-- The bits of `w` at the positions `E` flipped. -/
def flipBits (E : Finset ℕ) (w : List Bool) : List Bool :=
  w.mapIdx fun j b => b ^^ decide (j ∈ E)

/-- The positions below `n` in which two words differ. -/
def diffPositions (n : ℕ) (a b : List Bool) : Finset ℕ :=
  (range n).filter fun j => a.getD j false ≠ b.getD j false

/-- A word evaluated at `x`, its first bit going with `x ^ (n - 1)`. -/
def wordEval {F : Type*} [Field F] (n : ℕ) (x : F) (w : List Bool) : F :=
  ∑ j ∈ range n, bitVal F (w.getD j false) * x ^ (n - 1 - j)

theorem flipBits_length (E : Finset ℕ) (w : List Bool) : (flipBits E w).length = w.length := by
  simp [flipBits]

theorem flipBits_getD (E : Finset ℕ) (w : List Bool) {j : ℕ} (hj : j < w.length) :
    (flipBits E w).getD j false = (w.getD j false ^^ decide (j ∈ E)) := by
  simp [flipBits, List.getD_eq_getElem?_getD, hj]

theorem flipBits_flipBits (E : Finset ℕ) (w : List Bool) : flipBits E (flipBits E w) = w := by
  refine list_ext_getD false (by rw [flipBits_length, flipBits_length]) fun j hj => ?_
  rw [flipBits_length, flipBits_length] at hj
  rw [flipBits_getD _ _ (by rw [flipBits_length]; exact hj), flipBits_getD _ _ hj, Bool.xor_assoc,
    Bool.xor_self, Bool.xor_false]

/-- Flips behind the first `k` bits leave these alone. -/
theorem flipBits_take {E : Finset ℕ} {k : ℕ} (hE : ∀ j ∈ E, k ≤ j) (w : List Bool) :
    (flipBits E w).take k = w.take k := by
  refine list_ext_getD false (by simp [flipBits_length]) fun j hj => ?_
  rw [List.length_take, flipBits_length] at hj
  rw [getD_take (by omega), getD_take (by omega), flipBits_getD _ _ (by omega),
    decide_eq_false fun hmem => absurd (hE j hmem) (by omega), Bool.xor_false]

theorem flipBits_empty (w : List Bool) : flipBits ∅ w = w := by
  refine list_ext_getD false (flipBits_length _ _) fun j hj => ?_
  rw [flipBits_length] at hj
  rw [flipBits_getD _ _ hj]
  simp

theorem diffPositions_flipBits {n : ℕ} {E : Finset ℕ} {w : List Bool} (hw : w.length = n)
    (hE : ∀ j ∈ E, j < n) : diffPositions n w (flipBits E w) = E := by
  ext j
  rw [diffPositions, mem_filter, mem_range]
  constructor
  · rintro ⟨hj, hne⟩
    rw [flipBits_getD _ _ (by rw [hw]; exact hj)] at hne
    by_contra hnot
    simp [hnot] at hne
  · intro hj
    have hlt := hE j hj
    refine ⟨hlt, ?_⟩
    rw [flipBits_getD _ _ (by rw [hw]; exact hlt)]
    cases w.getD j false <;> simp [hj]

theorem flipBits_diffPositions {n : ℕ} {a b : List Bool} (ha : a.length = n)
    (hb : b.length = n) : flipBits (diffPositions n a b) a = b := by
  refine list_ext_getD false (by rw [flipBits_length, ha, hb]) fun j hj => ?_
  rw [flipBits_length, ha] at hj
  rw [flipBits_getD _ _ (by rw [ha]; exact hj), diffPositions]
  simp only [mem_filter, mem_range, hj, true_and]
  cases a.getD j false <;> cases b.getD j false <;> simp

/-- Correcting one location after the other flips them all. -/
theorem flipLocs_eq {w : List Bool} {locs : List ℕ} (hnodup : locs.Nodup)
    (hlt : ∀ p ∈ locs, p < w.length) : flipLocs w locs = flipBits locs.toFinset w := by
  induction locs generalizing w with
  | nil =>
    refine list_ext_getD false (by rw [flipBits_length]; rfl) fun j hj => ?_
    have hj : j < w.length := hj
    rw [flipBits_getD _ _ hj]
    simp [flipLocs]
  | cons p locs ih =>
    obtain ⟨hp, hnodup⟩ := List.nodup_cons.mp hnodup
    have hpw : p < w.length := hlt p List.mem_cons_self
    rw [flipLocs, List.foldl_cons, ← flipLocs, ih hnodup fun q hq => by
      rw [List.length_modify]
      exact hlt q (List.mem_cons_of_mem p hq)]
    refine list_ext_getD false (by rw [flipBits_length, flipBits_length, List.length_modify])
      fun j hj => ?_
    rw [flipBits_length, List.length_modify] at hj
    rw [flipBits_getD _ _ (by rw [List.length_modify]; exact hj), flipBits_getD _ _ hj,
      getD_modify_not _ _ _ hpw, List.toFinset_cons, Bool.xor_assoc]
    congr 1
    by_cases hjp : j = p
    · subst hjp
      simp [hp]
    · simp [hjp]

section
variable {F : Type*} [Field F] [CharP F 2] {α : F} {n : ℕ}

/-- Flipping bits adds the powers at their positions. -/
theorem wordEval_flipBits (x : F) {w : List Bool} (hw : w.length = n) {E : Finset ℕ}
    (hE : ∀ j ∈ E, j < n) :
    wordEval n x (flipBits E w) = wordEval n x w + ∑ j ∈ E, x ^ (n - 1 - j) := by
  have hsum : ∑ j ∈ E, x ^ (n - 1 - j)
      = ∑ j ∈ range n, bitVal F (decide (j ∈ E)) * x ^ (n - 1 - j) := by
    have hsub : E ⊆ range n := fun j hj => mem_range.mpr (hE j hj)
    rw [← Finset.sum_subset hsub]
    · refine Finset.sum_congr rfl fun j hj => ?_
      simp [hj, bitVal]
    · intro j _ hj
      simp [hj, bitVal]
  rw [hsum, wordEval, wordEval, ← Finset.sum_add_distrib]
  refine Finset.sum_congr rfl fun j hj => ?_
  rw [flipBits_getD _ _ (by rw [hw]; exact mem_range.mp hj), bitVal_xor, add_mul]

omit [CharP F 2] in
theorem bitVal_sq (b : Bool) : bitVal F b ^ 2 = bitVal F b := by
  cases b <;> simp [bitVal]

/-- A binary word takes squares to squares. -/
theorem wordEval_sq (x : F) (w : List Bool) : wordEval n (x ^ 2) w = wordEval n x w ^ 2 := by
  rw [wordEval, wordEval, CharTwo.sum_sq]
  refine Finset.sum_congr rfl fun j _ => ?_
  rw [mul_pow, bitVal_sq, ← pow_mul, ← pow_mul, Nat.mul_comm]

/-- The syndromes of a word as a series. -/
noncomputable def syndromeSeries (α : F) (n : ℕ) (w : List Bool) : PowerSeries F :=
  PowerSeries.mk fun k => if k = 0 then 0 else wordEval n (α ^ k) w

omit [CharP F 2] in
theorem coeff_syndromeSeries {k : ℕ} (hk : 1 ≤ k) (w : List Bool) :
    PowerSeries.coeff k (syndromeSeries α n w) = wordEval n (α ^ k) w := by
  rw [syndromeSeries, PowerSeries.coeff_mk, if_neg (by omega)]

variable {gf : GfTables} (h : GfSpec gf α)
include h

/-- **A computed syndrome.** -/
theorem bchSyndrome_spec (dec : BchDecoder) (w : List Bool) (i : ℕ) :
    bchSyndrome dec gf w i < 2 ^ gf.m ∧
      evalBits α (bchSyndrome dec gf w i) = wordEval dec.n (α ^ i) w := by
  have hg : ∀ s j, (if w.getD j false then
        s ^^^ gf.expTable.getD (i * (dec.n - 1 - j) % gf.n) 0 else s)
      = s ^^^ if w.getD j false then gf.expTable.getD (i * (dec.n - 1 - j) % gf.n) 0 else 0 := by
    intro s j
    cases w.getD j false <;> simp
  constructor
  · refine foldl_xor_lt hg (Nat.two_pow_pos _) _ fun j _ => ?_
    split
    · exact (h.exp_mod_spec _).1
    · exact Nat.two_pow_pos _
  · rw [bchSyndrome, evalBits_foldl_xor α hg, evalBits_zero, zero_add, wordEval]
    refine Finset.sum_congr rfl fun j _ => ?_
    cases w.getD j false with
    | true =>
      rw [if_pos rfl, (h.exp_mod_spec _).2, bitVal, if_pos rfl, one_mul, pow_mul]
    | false =>
      rw [if_neg Bool.false_ne_true, evalBits_zero, bitVal, if_neg Bool.false_ne_true, zero_mul]

theorem bchSyndromes_spec {dec : BchDecoder} (ht : dec.t = 12) (w : List Bool) {i : ℕ}
    (hi : 1 ≤ i) (hi' : i ≤ 24) :
    (bchSyndromes dec gf w).getD i 0 < 2 ^ gf.m ∧
      evalBits α ((bchSyndromes dec gf w).getD i 0)
        = PowerSeries.coeff i (syndromeSeries α dec.n w) := by
  have hget : (bchSyndromes dec gf w).getD i 0 = bchSyndrome dec gf w i := by
    rw [bchSyndromes, List.getD_eq_getElem?_getD, List.getElem?_map,
      List.getElem?_range (by simp only [bchArrayLen]; omega), Option.map_some, Option.getD_some,
      if_pos ⟨hi, by rw [ht]; omega⟩]
  rw [hget, coeff_syndromeSeries hi]
  exact bchSyndrome_spec h dec w i

/-- A computed syndrome is zero exactly when the word vanishes at that power of the root. -/
theorem bchSyndromes_eq_zero_iff {dec : BchDecoder} (ht : dec.t = 12) (w : List Bool) {i : ℕ}
    (hi : 1 ≤ i) (hi' : i ≤ 24) :
    (bchSyndromes dec gf w).getD i 0 = 0 ↔ wordEval dec.n (α ^ i) w = 0 := by
  obtain ⟨hlt, heval⟩ := bchSyndromes_spec h ht w hi hi'
  rw [← coeff_syndromeSeries hi, ← heval, evalBits_eq_zero_iff h.defining h.root h.order hlt]

/-! ### The Berlekamp-Massey loop -/

/-- An array of patterns as a series. -/
noncomputable def listSeries (α : F) (arr : List ℕ) : PowerSeries F :=
  PowerSeries.mk fun i => evalBits α (arr.getD i 0)

omit [CharP F 2] h in
theorem coeff_listSeries (arr : List ℕ) (i : ℕ) :
    PowerSeries.coeff i (listSeries α arr) = evalBits α (arr.getD i 0) :=
  PowerSeries.coeff_mk _ _

/-- The arrays after `n` steps, on the series `S`. -/
structure BmAt (gf : GfTables) (α : F) (S : PowerSeries F) (n : ℕ) (s : BmState) : Prop where
  inv : BmInv S (listSeries α s.sigma) (listSeries α s.b) s.l n
  sigma_lt : ∀ i, s.sigma.getD i 0 < 2 ^ gf.m
  b_lt : ∀ i, s.b.getD i 0 < 2 ^ gf.m
  sigma_end : ∀ i, bchArrayLen ≤ i → s.sigma.getD i 0 = 0
  b_end : ∀ i, bchArrayLen ≤ i → s.b.getD i 0 = 0

omit [CharP F 2] h in
theorem bmInit_getD (i : ℕ) :
    (1 :: List.replicate (bchArrayLen - 1) 0).getD i 0 = if i = 0 then 1 else 0 := by
  cases i with
  | zero => rfl
  | succ i =>
    rw [if_neg (Nat.succ_ne_zero i), List.getD_cons_succ, List.getD_eq_getElem?_getD,
      List.getElem?_replicate]
    split
    · rfl
    · rfl

omit [CharP F 2] in
theorem bmAt_init (S : PowerSeries F) : BmAt gf α S 0 bmInit := by
  have hone : listSeries α (1 :: List.replicate (bchArrayLen - 1) 0) = 1 := by
    ext i
    rw [coeff_listSeries, bmInit_getD, PowerSeries.coeff_one]
    split
    · exact evalBits_one α
    · exact evalBits_zero α
  have hlt : ∀ i, (1 :: List.replicate (bchArrayLen - 1) 0).getD i 0 < 2 ^ gf.m := by
    intro i
    rw [bmInit_getD]
    split
    · exact Nat.one_lt_two_pow (by have := h.defining.pos; omega)
    · exact Nat.two_pow_pos _
  have hend : ∀ i, bchArrayLen ≤ i → (1 :: List.replicate (bchArrayLen - 1) 0).getD i 0 = 0 := by
    intro i hi
    rw [bmInit_getD, if_neg (by simp only [bchArrayLen] at hi; omega)]
  refine ⟨?_, hlt, hlt, hend, hend⟩
  have hinit := BmInv.init S
  rw [← hone] at hinit
  exact hinit

section
variable {dec : BchDecoder} (ht : dec.t = 12) (w : List Bool) {n : ℕ} {s : BmState}

/-- The computed discrepancy is the coefficient the abstract algorithm looks at. -/
theorem bmDiscrepancy_spec (ht : dec.t = 12)
    (hs : BmAt gf α (syndromeSeries α dec.n w) n s) (hn : n < 24) :
    bmDiscrepancy gf (bchSyndromes dec gf w) s (n + 1) < 2 ^ gf.m ∧
      evalBits α (bmDiscrepancy gf (bchSyndromes dec gf w) s (n + 1))
        = PowerSeries.coeff (n + 1)
          (listSeries α s.sigma * syndromeSeries α dec.n w) := by
  have hle := hs.inv.le
  have hterm : ∀ i < s.l,
      gfMul gf (s.sigma.getD (i + 1) 0) ((bchSyndromes dec gf w).getD (n + 1 - (i + 1)) 0)
        < 2 ^ gf.m ∧
      evalBits α (gfMul gf (s.sigma.getD (i + 1) 0)
        ((bchSyndromes dec gf w).getD (n + 1 - (i + 1)) 0))
        = PowerSeries.coeff (i + 1) (listSeries α s.sigma)
          * PowerSeries.coeff (n + 1 - (i + 1)) (syndromeSeries α dec.n w) := by
    intro i hi
    obtain ⟨h₁, h₂⟩ := bchSyndromes_spec h ht w (i := n + 1 - (i + 1)) (by omega) (by omega)
    obtain ⟨h₃, h₄⟩ := h.gfMul_spec (hs.sigma_lt (i + 1)) h₁
    exact ⟨h₃, by rw [h₄, h₂, coeff_listSeries]⟩
  obtain ⟨h₁, h₂⟩ := bchSyndromes_spec h ht w (i := n + 1) (by omega) (by omega)
  constructor
  · exact foldl_xor_lt (fun _ _ => rfl) h₁ s.l fun i hi => (hterm i hi).1
  · rw [bmDiscrepancy, evalBits_foldl_xor α fun _ _ => rfl, h₂,
      coeff_mul_eq_sum hs.inv.gen.coeff_gt _ (by omega), Finset.sum_range_succ',
      hs.inv.gen.coeff_zero, one_mul, Nat.sub_zero, add_comm]
    exact congrArg (· + _) (Finset.sum_congr rfl fun i hi => (hterm i (mem_range.mp hi)).2)

omit [CharP F 2] h in
/-- Before the last step the top entry of `b` is zero, so the shift loses nothing. -/
theorem bmShift_spec {S : PowerSeries F} (hs : BmAt gf α S n s) (hn : n < 24) :
    listSeries α (bmShift 12 s.b) = PowerSeries.X * listSeries α s.b ∧
      (∀ i, (bmShift 12 s.b).getD i 0 < 2 ^ gf.m) ∧
      ∀ i, bchArrayLen ≤ i → (bmShift 12 s.b).getD i 0 = 0 := by
  refine ⟨?_, ?_, ?_⟩
  · ext i
    rw [coeff_listSeries, bmShift, getD_map_range]
    cases i with
    | zero =>
      rw [if_pos (by decide), if_pos rfl, evalBits_zero, PowerSeries.coeff_zero_X_mul]
    | succ i =>
      rw [PowerSeries.coeff_succ_X_mul]
      simp only [bchArrayLen]
      by_cases hi : i + 1 < 2 * 12 + 1
      · rw [if_pos hi, if_neg (by omega), if_pos (by omega), Nat.add_sub_cancel, coeff_listSeries]
      · rw [if_neg hi, evalBits_zero, hs.inv.corr_gt i (by omega)]
  · intro i
    rw [bmShift, getD_map_range]
    split
    · split
      · exact Nat.two_pow_pos _
      · split
        · exact hs.b_lt _
        · exact hs.b_lt _
    · exact Nat.two_pow_pos _
  · intro i hi
    rw [bmShift, getD_map_range, if_neg (by omega)]

theorem bmUpdate_spec {S : PowerSeries F} (hs : BmAt gf α S n s) (hn : n < 24) {d : ℕ}
    (hd : d < 2 ^ gf.m) :
    listSeries α (bmUpdate gf 12 d s)
        = listSeries α s.sigma
          - PowerSeries.C (evalBits α d) * (PowerSeries.X * listSeries α s.b) ∧
      (∀ i, (bmUpdate gf 12 d s).getD i 0 < 2 ^ gf.m) ∧
      ∀ i, bchArrayLen ≤ i → (bmUpdate gf 12 d s).getD i 0 = 0 := by
  refine ⟨?_, ?_, ?_⟩
  · ext i
    rw [coeff_listSeries, bmUpdate, getD_map_range, map_sub, PowerSeries.coeff_C_mul,
      CharTwo.sub_eq_add]
    cases i with
    | zero =>
      rw [if_pos (by decide), if_neg (by omega), PowerSeries.coeff_zero_X_mul, mul_zero, add_zero,
        coeff_listSeries]
    | succ i =>
      rw [PowerSeries.coeff_succ_X_mul, coeff_listSeries]
      simp only [bchArrayLen]
      by_cases hi : i + 1 < 2 * 12 + 1
      · rw [if_pos hi, Nat.add_sub_cancel, coeff_listSeries]
        by_cases hb : s.b.getD i 0 = 0
        · rw [if_neg (fun hc => hc.2.2 hb), hb, evalBits_zero, mul_zero, add_zero]
        · rw [if_pos ⟨by omega, by omega, hb⟩, evalBits_xor, (h.gfMul_spec hd (hs.b_lt i)).2]
      · rw [if_neg hi, evalBits_zero, hs.sigma_end _ (by simp only [bchArrayLen]; omega),
          evalBits_zero, hs.inv.corr_gt i (by omega), mul_zero, add_zero]
  · intro i
    rw [bmUpdate, getD_map_range]
    split
    · split
      · exact Nat.xor_lt_two_pow (hs.sigma_lt i) (h.gfMul_spec hd (hs.b_lt _)).1
      · exact hs.sigma_lt i
    · exact Nat.two_pow_pos _
  · intro i hi
    rw [bmUpdate, getD_map_range, if_neg (by omega)]

theorem bmScale_spec {S : PowerSeries F} (hs : BmAt gf α S n s) {d : ℕ} (hd : d < 2 ^ gf.m) :
    listSeries α (bmScale gf 12 d s)
        = PowerSeries.C (evalBits α d)⁻¹ * listSeries α s.sigma ∧
      (∀ i, (bmScale gf 12 d s).getD i 0 < 2 ^ gf.m) ∧
      ∀ i, bchArrayLen ≤ i → (bmScale gf 12 d s).getD i 0 = 0 := by
  obtain ⟨hinv, hinv'⟩ := h.gfInv_spec hd
  refine ⟨?_, ?_, ?_⟩
  · ext i
    rw [coeff_listSeries, bmScale, getD_map_range, PowerSeries.coeff_C_mul, coeff_listSeries]
    simp only [bchArrayLen]
    by_cases hi : i < 2 * 12 + 1
    · rw [if_pos hi, if_pos (by omega), (h.gfMul_spec (hs.sigma_lt i) hinv).2, hinv', mul_comm]
    · rw [if_neg hi, evalBits_zero, hs.sigma_end _ (by simp only [bchArrayLen]; omega),
        evalBits_zero, mul_zero]
  · intro i
    rw [bmScale, getD_map_range]
    split
    · split
      · exact (h.gfMul_spec (hs.sigma_lt i) hinv).1
      · exact hs.b_lt i
    · exact Nat.two_pow_pos _
  · intro i hi
    rw [bmScale, getD_map_range, if_neg (by omega)]

/-- **One step** of the loop is one of the three rules. -/
theorem bmStep_spec (ht : dec.t = 12)
    (hs : BmAt gf α (syndromeSeries α dec.n w) n s) (hn : n < 24) :
    BmAt gf α (syndromeSeries α dec.n w) (n + 1)
      (bmStep gf 12 (bchSyndromes dec gf w) s (n + 1)) := by
  obtain ⟨hdlt, hd⟩ := bmDiscrepancy_spec h w ht hs hn
  obtain ⟨hshift, hshift_lt, hshift_end⟩ := bmShift_spec hs hn
  unfold bmStep
  dsimp only
  generalize bmDiscrepancy gf (bchSyndromes dec gf w) s (n + 1) = d at hdlt hd
  obtain ⟨hup, hup_lt, hup_end⟩ := bmUpdate_spec h hs hn hdlt
  obtain ⟨hsc, hsc_lt, hsc_end⟩ := bmScale_spec h hs hdlt
  by_cases hzero : d = 0
  · rw [if_pos hzero]
    refine ⟨?_, hs.sigma_lt, hshift_lt, hs.sigma_end, hshift_end⟩
    rw [hzero, evalBits_zero] at hd
    dsimp only
    rw [hshift]
    exact hs.inv.skip hd.symm
  · rw [if_neg hzero]
    have hne : evalBits α d ≠ 0 :=
      evalBits_ne_zero h.defining h.root h.order (Nat.pos_of_ne_zero hzero) hdlt
    by_cases hlen : 2 * s.l ≤ n + 1 - 1
    · rw [if_pos hlen]
      refine ⟨?_, hup_lt, hsc_lt, hup_end, hsc_end⟩
      dsimp only
      rw [hup, hsc]
      exact hs.inv.lengthen hd.symm hne (by omega)
    · rw [if_neg hlen]
      refine ⟨?_, hup_lt, hshift_lt, hup_end, hshift_end⟩
      dsimp only
      rw [hup, hshift]
      exact hs.inv.correct hd.symm (by omega)

/-- **The loop**, by induction on the steps. -/
theorem berlekampMassey_spec (ht : dec.t = 12) :
    BmAt gf α (syndromeSeries α dec.n w) 24
      (berlekampMassey gf dec.t (bchSyndromes dec gf w)) := by
  have key : ∀ n ≤ 24, BmAt gf α (syndromeSeries α dec.n w) n
      (((List.range n).map (· + 1)).foldl (bmStep gf 12 (bchSyndromes dec gf w)) bmInit) := by
    intro n
    induction n with
    | zero => exact fun _ => bmAt_init h _
    | succ n ih =>
      intro hn
      rw [List.range_succ, List.map_append, List.map_singleton, List.foldl_append,
        List.foldl_cons, List.foldl_nil]
      exact bmStep_spec h w ht (ih (by omega)) (by omega)
  have := key 24 le_rfl
  rw [berlekampMassey, ht]
  exact this

end

/-! ### The Chien search -/

/-- **The polynomial at `α ^ i`.** -/
theorem chienEval_spec {sigma : List ℕ} (hlt : ∀ k, sigma.getD k 0 < 2 ^ gf.m) (l i : ℕ) :
    chienEval gf sigma l i < 2 ^ gf.m ∧
      evalBits α (chienEval gf sigma l i) = (locator (listSeries α sigma) l).eval (α ^ i) := by
  have hg : ∀ (s k : ℕ), (if sigma.getD (k + 1) 0 ≠ 0 then
        s ^^^ gf.expTable.getD
          (((gf.logTable.getD (sigma.getD (k + 1) 0) 0).toNat + (k + 1) * i) % gf.n) 0 else s)
      = s ^^^ if sigma.getD (k + 1) 0 ≠ 0 then gf.expTable.getD
          (((gf.logTable.getD (sigma.getD (k + 1) 0) 0).toNat + (k + 1) * i) % gf.n) 0 else 0 := by
    intro s k
    split
    · rfl
    · rw [Nat.xor_zero]
  have hterm : ∀ k, evalBits α (if sigma.getD (k + 1) 0 ≠ 0 then gf.expTable.getD
        (((gf.logTable.getD (sigma.getD (k + 1) 0) 0).toNat + (k + 1) * i) % gf.n) 0 else 0)
      = evalBits α (sigma.getD (k + 1) 0) * (α ^ i) ^ (k + 1) := by
    intro k
    by_cases hz : sigma.getD (k + 1) 0 = 0
    · rw [if_neg (not_not.mpr hz), hz, evalBits_zero, zero_mul]
    · rw [if_pos hz, (h.exp_mod_spec _).2]
      obtain ⟨j, -, hlog, heq⟩ := h.exists_log hz (hlt (k + 1))
      rw [hlog, heq, evalBits_expPattern h.root, Int.toNat_natCast, pow_add, ← pow_mul,
        Nat.mul_comm i]
  constructor
  · refine foldl_xor_lt hg (hlt 0) l fun k _ => ?_
    split
    · exact (h.exp_mod_spec _).1
    · exact Nat.two_pow_pos _
  · rw [chienEval, evalBits_foldl_xor α hg, eval_locator, Finset.sum_range_succ', pow_zero,
      mul_one, coeff_listSeries, add_comm]
    refine congrArg (· + _) (Finset.sum_congr rfl fun k _ => ?_)
    rw [hterm, coeff_listSeries]

theorem chienEval_eq_zero_iff {sigma : List ℕ} (hlt : ∀ k, sigma.getD k 0 < 2 ^ gf.m) (l i : ℕ) :
    chienEval gf sigma l i = 0 ↔ (locator (listSeries α sigma) l).eval (α ^ i) = 0 := by
  obtain ⟨h₁, h₂⟩ := chienEval_spec h hlt l i
  rw [← h₂, evalBits_eq_zero_iff h.defining h.root h.order h₁]

omit [CharP F 2] h in
/-- The search with its break: the first `num_errors` of all the positions it would find. -/
theorem chienSearch_eq (dec : BchDecoder) (sigma : List ℕ) (l : ℕ) (is : List ℕ) :
    ∀ locs : List ℕ, locs.length < l → chienSearch dec gf sigma l is locs
      = (locs ++ (is.filter fun i => chienEval gf sigma l i = 0 ∧ chienPolyPos gf i < dec.n).map
        fun i => dec.n - 1 - chienPolyPos gf i).take l := by
  induction is with
  | nil =>
    intro locs hlocs
    rw [chienSearch, List.filter_nil, List.map_nil, List.append_nil,
      List.take_of_length_le hlocs.le]
  | cons i is ih =>
    intro locs hlocs
    rw [chienSearch]
    by_cases hroot : chienEval gf sigma l i = 0
    · rw [if_pos hroot]
      by_cases hpos : dec.n ≤ chienPolyPos gf i
      · rw [if_pos hpos, ih locs hlocs, List.filter_cons_of_neg (by simp [hpos])]
      · rw [if_neg hpos, List.filter_cons_of_pos (by simp [hroot]; omega), List.map_cons]
        dsimp only
        rw [show locs ++ (dec.n - 1 - chienPolyPos gf i) :: (is.filter fun i =>
            chienEval gf sigma l i = 0 ∧ chienPolyPos gf i < dec.n).map
            (fun i => dec.n - 1 - chienPolyPos gf i)
          = (locs ++ [dec.n - 1 - chienPolyPos gf i]) ++ (is.filter fun i =>
            chienEval gf sigma l i = 0 ∧ chienPolyPos gf i < dec.n).map
            (fun i => dec.n - 1 - chienPolyPos gf i) by simp]
        by_cases hfull : l ≤ (locs ++ [dec.n - 1 - chienPolyPos gf i]).length
        · rw [if_pos hfull, List.take_append_of_le_length hfull, List.take_of_length_le]
          rw [List.length_append, List.length_singleton]
          omega
        · rw [if_neg hfull, ih _ (by omega)]
    · rw [if_neg hroot, ih locs hlocs, List.filter_cons_of_neg (by simp [hroot])]

/-- The positions in the word whose locator is a root, in the order of the search. -/
def chienPositions (dec : BchDecoder) (gf : GfTables) (sigma : List ℕ) (l : ℕ) : List ℕ :=
  ((List.range gf.n).filter fun i => chienEval gf sigma l i = 0 ∧ chienPolyPos gf i < dec.n).map
    fun i => dec.n - 1 - chienPolyPos gf i

omit [CharP F 2] in
/-- Exponent `i` belongs to the position of its inverse. -/
theorem pow_chienPolyPos {i : ℕ} (hi : i < gf.n) :
    chienPolyPos gf i < gf.n ∧ α ^ i = (α ^ chienPolyPos gf i)⁻¹ ∧
      chienPolyPos gf (chienPolyPos gf i) = i := by
  have hn := h.n_pos
  refine ⟨Nat.mod_lt _ hn, ?_, ?_⟩
  · refine eq_inv_of_mul_eq_one_left ?_
    rw [← pow_add, ← pow_mod_orderOf, h.order, ← h.n_eq, chienPolyPos, Nat.add_mod_mod,
      Nat.add_sub_cancel' hi.le, Nat.mod_self, pow_zero]
  · rw [chienPolyPos, chienPolyPos]
    rcases Nat.eq_zero_or_pos i with rfl | hpos
    · simp
    · rw [Nat.mod_eq_of_lt (by omega : gf.n - i < gf.n),
        show gf.n - (gf.n - i) = i by omega, Nat.mod_eq_of_lt hi]

/-- **The positions found**: those whose locator's inverse is a root. -/
theorem mem_chienPositions {dec : BchDecoder} (hdec : dec.n ≤ gf.n) {sigma : List ℕ}
    (hlt : ∀ k, sigma.getD k 0 < 2 ^ gf.m) (l p : ℕ) :
    p ∈ chienPositions dec gf sigma l ↔
      p < dec.n ∧ (locator (listSeries α sigma) l).eval (α ^ (dec.n - 1 - p))⁻¹ = 0 := by
  simp only [chienPositions, List.mem_map, List.mem_filter, List.mem_range, decide_eq_true_eq]
  constructor
  · rintro ⟨i, ⟨hi, hroot, hpos⟩, rfl⟩
    obtain ⟨-, hinv, -⟩ := pow_chienPolyPos h hi
    refine ⟨by omega, ?_⟩
    rw [show dec.n - 1 - (dec.n - 1 - chienPolyPos gf i) = chienPolyPos gf i by omega, ← hinv]
    exact (chienEval_eq_zero_iff h hlt l i).mp hroot
  · rintro ⟨hp, hroot⟩
    obtain ⟨hlt', hinv, hback⟩ := pow_chienPolyPos h (i := dec.n - 1 - p) (by omega)
    refine ⟨chienPolyPos gf (dec.n - 1 - p), ⟨hlt', ?_, by rw [hback]; omega⟩, by
      rw [hback]
      omega⟩
    rw [chienEval_eq_zero_iff h hlt]
    obtain ⟨-, hinv', -⟩ := pow_chienPolyPos h hlt'
    rw [hinv', hback]
    exact hroot

omit [CharP F 2] in
theorem chienPositions_nodup (dec : BchDecoder) (sigma : List ℕ) (l : ℕ) :
    (chienPositions dec gf sigma l).Nodup := by
  refine List.Nodup.map_on ?_ (List.nodup_range.filter _)
  intro a ha b hb hab
  simp only [List.mem_filter, List.mem_range, decide_eq_true_eq] at ha hb
  obtain ⟨-, -, hback⟩ := pow_chienPolyPos h ha.1
  obtain ⟨-, -, hback'⟩ := pow_chienPolyPos h hb.1
  rw [← hback, ← hback', show chienPolyPos gf a = chienPolyPos gf b by omega]

/-! ### Decoding -/

/-- The locators of a set of positions. -/
noncomputable def locators [DecidableEq F] (α : F) (n : ℕ) (E : Finset ℕ) : Finset F :=
  E.image fun j => α ^ (n - 1 - j)

section
variable [DecidableEq F] {dec : BchDecoder} (hdec : dec.n ≤ gf.n)
include hdec

omit [CharP F 2] [DecidableEq F] in
theorem locators_injOn {E : Finset ℕ} (hE : ∀ j ∈ E, j < dec.n) :
    Set.InjOn (fun j => α ^ (dec.n - 1 - j)) E := by
  intro a ha b hb hab
  have h₁ := hE a ha
  have h₂ := hE b hb
  have := pow_injOn_of_order h.order (by rw [← h.n_eq]; omega) (by rw [← h.n_eq]; omega) hab
  omega

omit [CharP F 2] in
theorem locators_card {E : Finset ℕ} (hE : ∀ j ∈ E, j < dec.n) : #(locators α dec.n E) = #E :=
  card_image_of_injOn (locators_injOn h hdec hE)

omit [CharP F 2] in
theorem sum_locators {E : Finset ℕ} (hE : ∀ j ∈ E, j < dec.n) (k : ℕ) :
    ∑ x ∈ locators α dec.n E, x ^ k = ∑ j ∈ E, (α ^ k) ^ (dec.n - 1 - j) := by
  rw [locators, Finset.sum_image (locators_injOn h hdec hE)]
  exact Finset.sum_congr rfl fun j _ => by rw [← pow_mul, ← pow_mul, Nat.mul_comm]

omit [CharP F 2] hdec in
theorem locators_ne_zero (E : Finset ℕ) : ∀ x ∈ locators α dec.n E, x ≠ 0 := by
  intro x hx
  obtain ⟨j, -, rfl⟩ := mem_image.mp hx
  exact pow_ne_zero _ (root_ne_zero h.defining h.order)

/-- The word's syndromes are the power sums of the positions `E`. -/
def SyndromesOf (α : F) (n : ℕ) (w : List Bool) (E : Finset ℕ) : Prop :=
  ∀ k, 1 ≤ k → k ≤ 24 → wordEval n (α ^ k) w = ∑ j ∈ E, (α ^ k) ^ (n - 1 - j)

omit [CharP F 2] in
theorem SyndromesOf.isPowerSum {w : List Bool} {E : Finset ℕ} (hE : ∀ j ∈ E, j < dec.n)
    (hw : SyndromesOf α dec.n w E) :
    IsPowerSum (syndromeSeries α dec.n w) (locators α dec.n E) (fun _ => 1) 24 := by
  intro k hk hk24
  rw [coeff_syndromeSeries hk, hw k hk hk24, ← sum_locators h hdec hE k]
  exact Finset.sum_congr rfl fun x _ => (one_mul _).symm

/-- The positions found are distinct places of the word with distinct roots, so there are no
more of them than the length. -/
theorem chienPositions_card {s : BmState} {w : List Bool}
    (hs : BmAt gf α (syndromeSeries α dec.n w) 24 s) :
    (∀ j ∈ (chienPositions dec gf s.sigma s.l).toFinset, j < dec.n) ∧
      (∀ x ∈ locators α dec.n (chienPositions dec gf s.sigma s.l).toFinset,
        (locator (listSeries α s.sigma) s.l).eval x⁻¹ = 0) ∧
      (chienPositions dec gf s.sigma s.l).length ≤ s.l := by
  have hlt : ∀ j ∈ (chienPositions dec gf s.sigma s.l).toFinset, j < dec.n := by
    intro j hj
    exact ((mem_chienPositions h hdec hs.sigma_lt s.l j).mp (List.mem_toFinset.mp hj)).1
  have hroot : ∀ x ∈ locators α dec.n (chienPositions dec gf s.sigma s.l).toFinset,
      (locator (listSeries α s.sigma) s.l).eval x⁻¹ = 0 := by
    intro x hx
    obtain ⟨j, hj, rfl⟩ := mem_image.mp hx
    exact ((mem_chienPositions h hdec hs.sigma_lt s.l j).mp (List.mem_toFinset.mp hj)).2
  refine ⟨hlt, hroot, ?_⟩
  have hcard := card_le_of_roots hs.inv.gen.coeff_zero
    (R := (locators α dec.n (chienPositions dec gf s.sigma s.l).toFinset).image fun x => x⁻¹)
    (by
      intro r hr
      obtain ⟨x, hx, rfl⟩ := mem_image.mp hr
      exact hroot x hx)
  rwa [card_image_of_injective _ inv_injective, locators_card h hdec hlt,
    List.toFinset_card_of_nodup (chienPositions_nodup h dec s.sigma s.l)] at hcard

/-- **Errors within the bound are found.**  If the syndromes are the power sums of at most
twelve positions, the length is their number and the search finds them. -/
theorem chienPositions_of_power_sums {s : BmState} {w : List Bool}
    (hs : BmAt gf α (syndromeSeries α dec.n w) 24 s) {E : Finset ℕ} (hE : ∀ j ∈ E, j < dec.n)
    (hcard : #E ≤ 12) (hw : SyndromesOf α dec.n w E) :
    s.l = #E ∧ (chienPositions dec gf s.sigma s.l).toFinset = E := by
  have hX : ∀ x ∈ locators α dec.n E, x ≠ 0 := locators_ne_zero h E
  have hXcard := locators_card h hdec hE
  have hsum := SyndromesOf.isPowerSum h hdec hE hw
  have hle : s.l ≤ #E := by
    have := hs.inv.shortest _ _ (hsum.generates hX)
    rwa [hXcard] at this
  have hroot := hsum.locator_eq_zero hX (fun _ _ => one_ne_zero) hs.inv.gen
    (by rw [hXcard]; omega)
  have hsub : E ⊆ (chienPositions dec gf s.sigma s.l).toFinset := by
    intro j hj
    refine List.mem_toFinset.mpr ((mem_chienPositions h hdec hs.sigma_lt s.l j).mpr
      ⟨hE j hj, hroot _ ?_⟩)
    exact mem_image_of_mem _ hj
  have hpos := (chienPositions_card h hdec hs).2.2
  have hnum := List.toFinset_card_of_nodup (chienPositions_nodup h dec s.sigma s.l)
  have hle' := card_le_card hsub
  exact ⟨by omega, (eq_of_subset_of_card_le hsub (by omega)).symm⟩

/-- **A full search explains the syndromes.**  If the search finds as many positions as the
length of the recurrence, at most twelve, the syndromes are the power sums of those
positions. -/
theorem syndromes_of_full_search {s : BmState} {w : List Bool}
    (hs : BmAt gf α (syndromeSeries α dec.n w) 24 s) (hl : s.l ≤ 12)
    (hfull : (chienPositions dec gf s.sigma s.l).length = s.l) :
    SyndromesOf α dec.n w (chienPositions dec gf s.sigma s.l).toFinset := by
  obtain ⟨hlt, hroot, -⟩ := chienPositions_card h hdec hs
  set E := (chienPositions dec gf s.sigma s.l).toFinset with hEdef
  have hEcard : #E = s.l := by
    rw [hEdef, List.toFinset_card_of_nodup (chienPositions_nodup h dec s.sigma s.l), hfull]
  have hX : ∀ x ∈ locators α dec.n E, x ≠ 0 := locators_ne_zero h E
  have hXcard : #(locators α dec.n E) = s.l := by rw [locators_card h hdec hlt, hEcard]
  obtain ⟨y, hy⟩ := exists_isPowerSum (σ := listSeries α s.sigma) hX
    (by rw [hXcard]; exact hs.inv.gen) (by rw [hXcard]; exact hroot)
  have hone := weights_eq_one hy hX (by rw [hXcard]; exact hs.inv.shortest)
    (by rw [hXcard]; omega) fun k hk _ => by
      rw [coeff_syndromeSeries (by omega), coeff_syndromeSeries hk, ← wordEval_sq, ← pow_mul,
        Nat.mul_comm]
  intro k hk hk24
  rw [← coeff_syndromeSeries hk, hy k hk hk24, ← sum_locators h hdec hlt k]
  exact Finset.sum_congr rfl fun x hx => by rw [hone x hx, one_mul]

omit [CharP F 2] h [DecidableEq F] hdec in
/-- A recurrence of length zero generates only zeros. -/
theorem length_pos_of_syndrome {s : BmState} {w : List Bool}
    (hs : BmAt gf α (syndromeSeries α dec.n w) 24 s)
    (hne : ¬ ∀ k, 1 ≤ k → k ≤ 24 → wordEval dec.n (α ^ k) w = 0) : 0 < s.l := by
  by_contra hzero
  refine hne fun k hk hk24 => ?_
  have hgen := hs.inv.gen
  rw [show s.l = 0 by omega] at hgen
  have hconv := hgen.conv k (by omega) hk24
  rwa [coeff_mul_eq_sum hgen.coeff_gt _ (by omega), zero_add, Finset.sum_range_one,
    hgen.coeff_zero, one_mul, Nat.sub_zero, coeff_syndromeSeries hk] at hconv

end

end

section
variable {F : Type*} [Field F] [CharP F 2] [DecidableEq F] {α : F} {dec : BchDecoder}
  (h : GfSpec (gfInit dec.gfM) α) (ht : dec.t = 12) (hdec : dec.n ≤ (gfInit dec.gfM).n)
  {w : List Bool} (hw : w.length = dec.n)
include h ht hdec hw

/-- **The three ways `dvbs2x_bch_decode` returns.** -/
theorem bchDecode_cases :
    ∃ s, BmAt (gfInit dec.gfM) α (syndromeSeries α dec.n w) 24 s ∧
      if ∀ k, 1 ≤ k → k ≤ 24 → wordEval dec.n (α ^ k) w = 0 then bchDecode dec w = (0, w)
      else if s.l ≤ 12 ∧ (chienPositions dec (gfInit dec.gfM) s.sigma s.l).length = s.l then
        bchDecode dec w
          = ((s.l : ℤ), flipBits (chienPositions dec (gfInit dec.gfM) s.sigma s.l).toFinset w)
      else bchDecode dec w = (-1, w) := by
  have hs := berlekampMassey_spec h w ht
  unfold bchDecode
  dsimp only
  generalize hgf : gfInit dec.gfM = gf at *
  have htest : (∀ i ∈ List.range (2 * dec.t), (bchSyndromes dec gf w).getD (i + 1) 0 = 0) ↔
      ∀ k, 1 ≤ k → k ≤ 24 → wordEval dec.n (α ^ k) w = 0 := by
    constructor
    · intro hall k hk hk24
      refine (bchSyndromes_eq_zero_iff h ht w hk hk24).mp ?_
      have := hall (k - 1) (List.mem_range.mpr (by omega))
      rwa [Nat.sub_add_cancel hk] at this
    · intro hall i hi
      have := List.mem_range.mp hi
      exact (bchSyndromes_eq_zero_iff h ht w (by omega) (by omega)).mpr
        (hall (i + 1) (by omega) (by omega))
  refine ⟨_, hs, ?_⟩
  by_cases hzero : ∀ k, 1 ≤ k → k ≤ 24 → wordEval dec.n (α ^ k) w = 0
  · rw [if_pos hzero, if_pos (htest.mpr hzero)]
  · rw [if_neg hzero, if_neg (mt htest.mp hzero), ht]
    rw [ht] at hs
    generalize berlekampMassey gf 12 (bchSyndromes dec gf w) = s at hs
    have hpos := length_pos_of_syndrome hs hzero
    obtain ⟨hlt, -, hle⟩ := chienPositions_card h hdec hs
    have hsearch : chienSearch dec gf s.sigma s.l (List.range gf.n) []
        = chienPositions dec gf s.sigma s.l := by
      rw [chienSearch_eq dec s.sigma s.l _ [] hpos, List.nil_append]
      exact List.take_of_length_le hle
    by_cases hl : 12 < s.l
    · rw [if_pos hl, if_neg (by omega)]
    · rw [if_neg hl, hsearch]
      by_cases hfull : (chienPositions dec gf s.sigma s.l).length = s.l
      · rw [if_neg (not_not.mpr hfull), if_pos ⟨by omega, hfull⟩, flipLocs_eq
          (chienPositions_nodup h dec s.sigma s.l)]
        intro p hp
        rw [hw]
        exact hlt p (List.mem_toFinset.mpr hp)
      · rw [if_pos hfull, if_neg (fun hc => hfull hc.2)]

/-- **Correction.**  A word whose syndromes are the power sums of at most twelve positions is
returned with those positions flipped. -/
theorem bchDecode_of_power_sums {E : Finset ℕ} (hE : ∀ j ∈ E, j < dec.n) (hcard : #E ≤ 12)
    (hsyn : SyndromesOf α dec.n w E) : bchDecode dec w = ((#E : ℤ), flipBits E w) := by
  obtain ⟨s, hs, hcases⟩ := bchDecode_cases h ht hdec hw
  obtain ⟨hl, hpos⟩ := chienPositions_of_power_sums h hdec hs hE hcard hsyn
  by_cases hzero : ∀ k, 1 ≤ k → k ≤ 24 → wordEval dec.n (α ^ k) w = 0
  · -- no syndrome, no error: the power sums of distinct locators do not all vanish
    rw [if_pos hzero] at hcases
    have hempty : E = ∅ := by
      by_contra hne
      obtain ⟨j, hj⟩ := nonempty_iff_ne_empty.mpr hne
      have hXcard := locators_card h hdec hE
      have hweights := weights_eq_zero (X := locators α dec.n E) (g := id) (Set.injOn_id _)
        (locators_ne_zero h E) (fun _ => 1) 1 fun i hi => by
          rw [hXcard] at hi
          have := hsyn (1 + i) (by omega) (by omega)
          rw [hzero (1 + i) (by omega) (by omega), ← sum_locators h hdec hE (1 + i)] at this
          simpa using this.symm
      exact one_ne_zero (hweights _ (mem_image_of_mem _ hj))
    rw [hcases, hempty]
    refine Prod.ext rfl (list_ext_getD false (by rw [flipBits_length]) fun j hj => ?_)
    rw [flipBits_getD _ _ hj]
    simp
  · have hnum := List.toFinset_card_of_nodup
      (chienPositions_nodup h dec s.sigma s.l)
    rw [hpos] at hnum
    rw [if_neg hzero, if_pos ⟨by omega, by omega⟩, hpos, hl] at hcases
    exact hcases

end

end OpenVlsnr
