import OpenVlsnr.BchEncode
import OpenVlsnr.BinaryMinpoly
import OpenVlsnr.ListGetD

/-!
# `compute_min_poly` finds the minimal polynomial

The elimination keeps, under the lowest bit of each, rows that are known combinations of the
powers seen so far (`ElimAt`).  Those powers are independent, and a combination of them whose
bits vanish at every pivot is zero; so a power that reduces to zero gives the first dependency
(`elimination_found`), any other one a new row (`elimination_step`).  There are only `m` places
for a row, which is why the loop never runs off its end (`minPolyLoop_spec`).
-/

namespace OpenVlsnr

open Finset

/-! ### The echelon invariant -/

/-- Row `i` of the echelon form. -/
structure ElimRow {F : Type*} [Field F] (α β : F) (m d i : ℕ) (e : Elimination) : Prop where
  lt : e.matrix.getD i 0 < 2 ^ m
  top : (e.matrix.getD i 0).testBit i = true
  low : ∀ j < i, (e.matrix.getD i 0).testBit j = false
  comb_lt : e.pivotCol.getD i 0 < 2 ^ d
  comb : evalBits α (e.matrix.getD i 0) = evalBits β (e.pivotCol.getD i 0)

/-- The places that hold a row. -/
def pivots (m : ℕ) (e : Elimination) : Finset ℕ :=
  (range m).filter fun i => e.pivotCol.getD i 0 ≠ 0

/-- The elimination once `d` powers of `β` have been added. -/
structure ElimAt {F : Type*} [Field F] (α β : F) (m d : ℕ) (e : Elimination) : Prop where
  matrix_len : e.matrix.length = 17
  pivot_len : e.pivotCol.length = 17
  row : ∀ i ∈ pivots m e, ElimRow α β m d i e
  indep : ∀ v, 0 < v → v < 2 ^ d → evalBits β v ≠ 0
  full : ∀ v < 2 ^ d, ∀ w < 2 ^ m, evalBits α w = evalBits β v →
    (∀ i ∈ pivots m e, w.testBit i = false) → w = 0
  count : #(pivots m e) = d

/-- A vector that is a combination of powers up to the `d`-th, which it contains. -/
structure Combination {F : Type*} [Field F] (α β : F) (m d : ℕ) (r : ℕ × ℕ) : Prop where
  lt : r.1 < 2 ^ m
  top : r.2.testBit d = true
  comb_lt : r.2 < 2 ^ (d + 1)
  comb : evalBits α r.1 = evalBits β r.2

section
variable {F : Type*} [Field F] [CharP F 2] {α β : F} {m d : ℕ} {e : Elimination}

/-- Adding a row keeps a combination. -/
theorem Combination.xor_row {r : ℕ × ℕ} (h : Combination α β m d r) {i : ℕ}
    (hrow : ElimRow α β m d i e) :
    Combination α β m d (r.1 ^^^ e.matrix.getD i 0, r.2 ^^^ e.pivotCol.getD i 0) := by
  have hle : 2 ^ d ≤ 2 ^ (d + 1) := Nat.pow_le_pow_right (by decide) (Nat.le_succ d)
  refine ⟨Nat.xor_lt_two_pow h.lt hrow.lt, ?_,
    Nat.xor_lt_two_pow h.comb_lt (lt_of_lt_of_le hrow.comb_lt hle), ?_⟩
  · rw [Nat.testBit_xor, h.top, Nat.testBit_lt_two_pow hrow.comb_lt]
    rfl
  · rw [evalBits_xor, evalBits_xor, h.comb, hrow.comb]

/-- **The reduction**, after the places below `k`: the bits at the pivots among them are
clear.  Induction on `k`; a row has no bits below its own place, so cleared bits stay clear. -/
theorem minPolyReduce_spec (he : ElimAt α β m d e) {vec rowBits : ℕ}
    (h : Combination α β m d (vec, rowBits)) :
    Combination α β m d (minPolyReduce m e vec rowBits) ∧
      ∀ i ∈ pivots m e, (minPolyReduce m e vec rowBits).1.testBit i = false := by
  have key : ∀ k ≤ m, ∃ r, (List.range k).foldl (fun r i =>
        if r.1.testBit i ∧ e.pivotCol.getD i 0 ≠ 0 then
          (r.1 ^^^ e.matrix.getD i 0, r.2 ^^^ e.pivotCol.getD i 0)
        else r) (vec, rowBits) = r ∧
      Combination α β m d r ∧ ∀ i ∈ pivots m e, i < k → r.1.testBit i = false := by
    intro k
    induction k with
    | zero => exact fun _ => ⟨_, rfl, h, fun i _ hi => absurd hi (Nat.not_lt_zero i)⟩
    | succ k ih =>
      intro hk
      obtain ⟨r, hrun, hr, hclear⟩ := ih (by omega)
      rw [List.range_succ, List.foldl_append, List.foldl_cons, List.foldl_nil, hrun]
      by_cases hbit : r.1.testBit k = true ∧ e.pivotCol.getD k 0 ≠ 0
      · rw [if_pos hbit]
        have hmem : k ∈ pivots m e :=
          mem_filter.mpr ⟨mem_range.mpr (by omega), hbit.2⟩
        have hrow := he.row k hmem
        refine ⟨_, rfl, hr.xor_row hrow, fun i hi hik => ?_⟩
        rw [Nat.testBit_xor]
        rcases Nat.lt_succ_iff_lt_or_eq.mp hik with hlt | rfl
        · rw [hclear i hi hlt, hrow.low i hlt]
          rfl
        · rw [hbit.1, hrow.top]
          rfl
      · rw [if_neg hbit]
        refine ⟨r, rfl, hr, fun i hi hik => ?_⟩
        rcases Nat.lt_succ_iff_lt_or_eq.mp hik with hlt | rfl
        · exact hclear i hi hlt
        · have hpiv := (mem_filter.mp hi).2
          by_contra hne
          exact hbit ⟨by simpa using hne, hpiv⟩
  obtain ⟨r, hrun, hr, hclear⟩ := key m le_rfl
  rw [minPolyReduce, hrun]
  exact ⟨hr, fun i hi => hclear i hi (mem_range.mp (mem_filter.mp hi).1)⟩

omit [CharP F 2] in
/-- **A dependency.**  A power that reduces to zero gives the pattern of least degree. -/
theorem elimination_found (he : ElimAt α β m d e) {r : ℕ × ℕ} (hr : Combination α β m d r)
    (hzero : r.1 = 0) : IsMinPattern β d r.2 := by
  refine ⟨hr.top, hr.comb_lt, ?_, he.indep⟩
  rw [← hr.comb, hzero, evalBits_zero]

/-- Cancelling the top bit of a combination against a reduced vector. -/
theorem Combination.cancel {r : ℕ × ℕ} (hr : Combination α β m d r) {v : ℕ}
    (hv : v < 2 ^ (d + 1)) (htop : v.testBit d = true) :
    v ^^^ r.2 < 2 ^ d ∧ evalBits β (v ^^^ r.2) = evalBits β v + evalBits α r.1 := by
  constructor
  · refine Nat.lt_pow_two_of_testBit _ fun i hi => ?_
    rw [Nat.testBit_xor]
    rcases Nat.eq_or_lt_of_le hi with rfl | hlt
    · rw [htop, hr.top]
      rfl
    · have hle : 2 ^ (d + 1) ≤ 2 ^ i := Nat.pow_le_pow_right (by decide) hlt
      rw [Nat.testBit_lt_two_pow (lt_of_lt_of_le hv hle),
        Nat.testBit_lt_two_pow (lt_of_lt_of_le hr.comb_lt hle)]
      rfl
  · rw [evalBits_xor, hr.comb]

theorem lt_two_pow_of_testBit_false {v d : ℕ} (hv : v < 2 ^ (d + 1))
    (hbit : v.testBit d = false) : v < 2 ^ d := by
  refine Nat.lt_pow_two_of_testBit _ fun i hi => ?_
  rcases Nat.eq_or_lt_of_le hi with rfl | hlt
  · exact hbit
  · exact Nat.testBit_lt_two_pow (lt_of_lt_of_le hv (Nat.pow_le_pow_right (by decide) hlt))

/-- The lowest bit of a non-zero vector. -/
theorem find_lowest_bit {v : ℕ} (hv : v ≠ 0) (hlt : v < 2 ^ m) :
    ∃ i < m, (List.range m).find? (fun i => v.testBit i) = some i ∧ v.testBit i = true ∧
      ∀ j < i, v.testBit j = false := by
  obtain ⟨k, hk⟩ := Nat.exists_testBit_of_ne_zero hv
  have hkm : k < m := by
    by_contra hge
    rw [Nat.testBit_lt_two_pow (lt_of_lt_of_le hlt
      (Nat.pow_le_pow_right (by decide) (not_lt.mp hge)))] at hk
    exact Bool.false_ne_true hk
  cases hfind : (List.range m).find? (fun i => v.testBit i) with
  | none =>
    have := List.find?_eq_none.mp hfind k (List.mem_range.mpr hkm)
    exact absurd hk this
  | some i =>
    obtain ⟨hi, hlow⟩ := List.find?_range_eq_some.mp hfind
    refine ⟨i, List.mem_range.mp (List.mem_of_find?_eq_some hfind), rfl, hi, fun j hj => ?_⟩
    simpa using hlow.2 j hj

/-- A reduced combination that contains the new power is the new row. -/
theorem Combination.unique (he : ElimAt α β m d e) {r : ℕ × ℕ} (hr : Combination α β m d r)
    (hclear : ∀ i ∈ pivots m e, r.1.testBit i = false) {v : ℕ} (hv : v < 2 ^ (d + 1))
    (hvd : v.testBit d = true) {w : ℕ} (hw : w < 2 ^ m) (hwv : evalBits α w = evalBits β v)
    (hwclear : ∀ j ∈ pivots m e, w.testBit j = false) : w = r.1 := by
  obtain ⟨hlt, heval⟩ := hr.cancel hv hvd
  have hz := he.full (v ^^^ r.2) hlt (w ^^^ r.1) (Nat.xor_lt_two_pow hw hr.lt)
    (by rw [evalBits_xor, heval, hwv])
    (fun j hj => by rw [Nat.testBit_xor, hwclear j hj, hclear j hj]; rfl)
  exact Nat.xor_eq_zero_iff.mp hz

omit [CharP F 2] in
theorem Combination.comb_ne_zero {r : ℕ × ℕ} (hr : Combination α β m d r) : r.2 ≠ 0 := by
  intro hz
  have htop := hr.top
  rw [hz, Nat.zero_testBit] at htop
  exact Bool.false_ne_true htop

section Store
variable {matrix pivotCol : List ℕ} {i : ℕ}

/-- A row that has been stored takes its place. -/
theorem pivots_set (hi : i < m) (hlen : i < pivotCol.length) {rowBits : ℕ} (hbits : rowBits ≠ 0)
    (vec : ℕ) : pivots m ⟨matrix.set i vec, pivotCol.set i rowBits⟩
      = insert i (pivots m ⟨matrix, pivotCol⟩) := by
  ext j
  simp only [pivots, mem_filter, mem_range, mem_insert, getD_set _ _ _ _ hlen]
  by_cases hj : j = i
  · subst hj
    simp [hi, hbits]
  · simp [hj]

omit [CharP F 2] in
/-- The stored row. -/
theorem elimRow_set_self {r : ℕ × ℕ} (hr : Combination α β m d r) (hmat : i < matrix.length)
    (hpiv : i < pivotCol.length) (htop : r.1.testBit i = true)
    (hlow : ∀ j < i, r.1.testBit j = false) :
    ElimRow α β m (d + 1) i ⟨matrix.set i r.1, pivotCol.set i r.2⟩ := by
  have hrow : (matrix.set i r.1).getD i 0 = r.1 := by rw [getD_set _ _ _ _ hmat, if_pos rfl]
  have hbits : (pivotCol.set i r.2).getD i 0 = r.2 := by rw [getD_set _ _ _ _ hpiv, if_pos rfl]
  constructor
  · rw [hrow]
    exact hr.lt
  · rw [hrow]
    exact htop
  · rw [hrow]
    exact hlow
  · rw [hbits]
    exact hr.comb_lt
  · rw [hrow, hbits]
    exact hr.comb

omit [CharP F 2] in
/-- The other rows stay. -/
theorem ElimRow.set_ne {j : ℕ} (h : ElimRow α β m d j ⟨matrix, pivotCol⟩) (hmat : i < matrix.length)
    (hpiv : i < pivotCol.length) (hji : j ≠ i) (vec rowBits : ℕ) :
    ElimRow α β m (d + 1) j ⟨matrix.set i vec, pivotCol.set i rowBits⟩ := by
  have hstep : 2 ^ d ≤ 2 ^ (d + 1) := Nat.pow_le_pow_right (by decide) (Nat.le_succ d)
  have hrow : (matrix.set i vec).getD j 0 = matrix.getD j 0 := by
    rw [getD_set _ _ _ _ hmat, if_neg hji]
  have hbits : (pivotCol.set i rowBits).getD j 0 = pivotCol.getD j 0 := by
    rw [getD_set _ _ _ _ hpiv, if_neg hji]
  constructor
  · rw [hrow]
    exact h.lt
  · rw [hrow]
    exact h.top
  · rw [hrow]
    exact h.low
  · rw [hbits]
    exact lt_of_lt_of_le h.comb_lt hstep
  · rw [hrow, hbits]
    exact h.comb

end Store

variable (hp : m ≤ 16)
include hp

/-- **A new row.**  A power that does not reduce to zero is independent of those before it and
takes a free place. -/
theorem elimination_step (he : ElimAt α β m d e) {r : ℕ × ℕ} (hr : Combination α β m d r)
    (hclear : ∀ i ∈ pivots m e, r.1.testBit i = false) (hne : r.1 ≠ 0) :
    ElimAt α β m (d + 1) (minPolyPivot m e r.1 r.2) := by
  obtain ⟨i, him, hfind, htop, hlow⟩ := find_lowest_bit hne hr.lt
  have hfree : i ∉ pivots m e := fun hi => by
    rw [hclear i hi] at htop
    exact Bool.false_ne_true htop
  have hmat : i < e.matrix.length := by rw [he.matrix_len]; omega
  have hpiv : i < e.pivotCol.length := by rw [he.pivot_len]; omega
  unfold minPolyPivot
  rw [hfind]
  have hpivots : pivots m ⟨e.matrix.set i r.1, e.pivotCol.set i r.2⟩ = insert i (pivots m e) :=
    pivots_set him hpiv hr.comb_ne_zero r.1
  refine ⟨by simp [he.matrix_len], by simp [he.pivot_len], ?_, ?_, ?_, ?_⟩
  · intro j hj
    rw [hpivots, mem_insert] at hj
    by_cases hji : j = i
    · subst hji
      exact elimRow_set_self hr hmat hpiv htop hlow
    · exact (he.row j (hj.resolve_left hji)).set_ne hmat hpiv hji r.1 r.2
  · intro v hvpos hv hzero
    cases hvd : v.testBit d with
    | false => exact he.indep v hvpos (lt_two_pow_of_testBit_false hv hvd) hzero
    | true =>
      have h0 := hr.unique he hclear hv hvd (Nat.two_pow_pos m) (by rw [evalBits_zero, hzero])
        (fun j _ => Nat.zero_testBit j)
      exact hne h0.symm
  · intro v hv w hw hwv hwclear
    rw [hpivots] at hwclear
    have hold : ∀ j ∈ pivots m e, w.testBit j = false :=
      fun j hj => hwclear j (mem_insert_of_mem hj)
    cases hvd : v.testBit d with
    | false => exact he.full v (lt_two_pow_of_testBit_false hv hvd) w hw hwv hold
    | true =>
      have hwi := hwclear i (mem_insert_self i _)
      rw [hr.unique he hclear hv hvd hw hwv hold, htop] at hwi
      exact absurd hwi.symm Bool.false_ne_true
  · rw [hpivots, card_insert_of_notMem hfree, he.count]

omit [CharP F 2] hp in
theorem elimAt_zero (hinj : ∀ w < 2 ^ m, evalBits α w = 0 → w = 0) :
    ElimAt α β m 0 ⟨List.replicate 17 0, List.replicate 17 0⟩ := by
  have hnone : pivots m ⟨List.replicate 17 0, List.replicate 17 0⟩ = ∅ := by
    refine filter_eq_empty_iff.mpr fun i hi => ?_
    rw [not_not, List.getD_eq_getElem?_getD, List.getElem?_replicate]
    split
    · rfl
    · rfl
  refine ⟨List.length_replicate, List.length_replicate, ?_, ?_, ?_, ?_⟩
  · intro i hi
    rw [hnone] at hi
    exact absurd hi (notMem_empty i)
  · intro v hv hlt
    omega
  · intro v hv w hw hwv _
    have hv0 : v = 0 := by simpa using hv
    rw [hv0, evalBits_zero] at hwv
    exact hinj w hw hwv
  · rw [hnone, card_empty]

/-- **The loop over the powers** finds the first dependency.  Induction on the powers left: when
none is left, `m + 1` rows would have to fit into `m` places. -/
theorem minPolyLoop_spec {powers : List ℕ}
    (hpow : ∀ i ≤ m, powers.getD i 0 < 2 ^ m ∧ evalBits α (powers.getD i 0) = β ^ i) (c : ℕ) :
    ∀ d e, d + c = m + 1 → ElimAt α β m d e →
      ∃ r d', minPolyLoop m powers (List.range' d c) e = some (r, d') ∧ d' ≤ m ∧
        IsMinPattern β d' r := by
  induction c with
  | zero =>
    intro d e hd he
    have hle : #(pivots m e) ≤ m := by
      have := card_filter_le (range m) fun i => e.pivotCol.getD i 0 ≠ 0
      rwa [card_range] at this
    rw [he.count] at hle
    omega
  | succ c ih =>
    intro d e hd he
    obtain ⟨hlt, heval⟩ := hpow d (by omega)
    have hstart : Combination α β m d (powers.getD d 0, 2 ^ d) := by
      refine ⟨hlt, Nat.testBit_two_pow_self, Nat.pow_lt_pow_right (by decide) (Nat.lt_succ_self d),
        ?_⟩
      rw [heval, evalBits_two_pow]
    obtain ⟨hr, hclear⟩ := minPolyReduce_spec he hstart
    rw [List.range'_succ, minPolyLoop]
    by_cases hzero : (minPolyReduce m e (powers.getD d 0) (2 ^ d)).1 = 0
    · rw [if_pos hzero]
      exact ⟨_, d, rfl, by omega, elimination_found he hr hzero⟩
    · rw [if_neg hzero]
      exact ih (d + 1) _ (by omega) (elimination_step hp he hr hclear hzero)

end

/-- **`compute_min_poly` returns the minimal polynomial** of `α ^ k` and its degree, never
through its fallback. -/
theorem computeMinPoly_spec {F : Type*} [Field F] [CharP F 2] {α : F} {m poly : ℕ}
    (hp : DefiningPoly m poly) (hm : m ≤ 16) (hroot : evalBits α poly = 0)
    (hord : orderOf α = 2 ^ m - 1) {expTable : Array ℕ}
    (hexp : ∀ i < 2 ^ m - 1, expTable.getD i 0 = expPattern m poly i) (k : ℕ) :
    ∃ r d, minPolyLoop m (minPolyPowers m k expTable (2 ^ m - 1)) (List.range (m + 1))
        ⟨List.replicate 17 0, List.replicate 17 0⟩ = some (r, d) ∧
      computeMinPoly m k expTable (2 ^ m - 1) = (r, d) ∧ d ≤ m ∧ IsMinPattern (α ^ k) d r := by
  have hlt : 2 ^ 1 < 2 ^ m := Nat.pow_lt_pow_right (by decide) hp.pos
  have hpow : ∀ i ≤ m, (minPolyPowers m k expTable (2 ^ m - 1)).getD i 0 < 2 ^ m ∧
      evalBits α ((minPolyPowers m k expTable (2 ^ m - 1)).getD i 0) = (α ^ k) ^ i := by
    intro i hi
    have hget : (minPolyPowers m k expTable (2 ^ m - 1)).getD i 0
        = expPattern m poly (k * i % (2 ^ m - 1)) := by
      rw [← hexp _ (Nat.mod_lt _ (by omega)), minPolyPowers, List.getD_eq_getElem?_getD,
        List.getElem?_map, List.getElem?_range (by omega), Option.map_some, Option.getD_some]
    rw [hget]
    refine ⟨expPattern_lt hp _, ?_⟩
    rw [evalBits_expPattern hroot, ← hord, pow_mod_orderOf, pow_mul]
  have hzero := elimAt_zero (β := α ^ k) fun w hw h0 =>
    (evalBits_eq_zero_iff hp hroot hord hw).mp h0
  obtain ⟨r, d, hloop, hd, hmin⟩ := minPolyLoop_spec hm hpow (m + 1) 0 _ (by omega) hzero
  rw [← List.range_eq_range'] at hloop
  refine ⟨r, d, hloop, ?_, hd, hmin⟩
  rw [computeMinPoly, hloop]

end OpenVlsnr
