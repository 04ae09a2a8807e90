import OpenVlsnr.BucketFill
import OpenVlsnr.LdpcTables

/-!
# The parity-check matrix of the LDPC decoder (`build_csr`)

`build_csr` runs over the edges of the Tanner graph twice, once to count them by row and once
to store their columns.  Both passes visit the same list, `csrEdges`: the circulants of the
address table, then the staircase.  The passes are the counting and scatter passes of
`BucketFill`, so row `r` of the matrix is the bucket of `r` (`csrRow_eq`).  The codes of this
library have rows of at most five columns (`modcod_rowWeight`).
-/

namespace OpenVlsnr

open BucketFill

/-! ### The loops -/

/-- `(entry->addrs[a] + j * q) % m`. -/
def LdpcCode.checkNode (code : LdpcCode) (j a : ℕ) : ℕ := (a + j * code.q) % code.m

/-- The three loops over groups, columns of a group and addresses; the body is given the check
node and the variable node. -/
def LdpcCode.foldInfo {σ : Type*} (code : LdpcCode) (body : σ → ℕ → ℕ → σ) (s : σ) : σ :=
  (List.range code.numGroups).foldl (fun s group =>
    (List.range ldpcParallel).foldl (fun s j =>
      (code.group group).foldl (fun s a =>
        body s (code.checkNode j a) (group * ldpcParallel + j)) s) s) s

/-- `struct ldpc_csr`. -/
structure LdpcCsr where
  numRows : ℕ
  numCols : ℕ
  rowPtr : List ℕ
  colIdx : List ℕ
  numEdges : ℕ
  deriving DecidableEq, Repr

/-- The first pass: `row_count`. -/
def csrRowCount (code : LdpcCode) : List ℕ :=
  let rowCount := code.foldInfo (fun rowCount cn _ => rowCount.modify cn (· + 1))
    (List.replicate code.m 0)
  let rowCount := rowCount.modify 0 (· + 1)
  (List.range' 1 (code.m - 1)).foldl (fun rowCount i => rowCount.modify i (· + 2)) rowCount

def csrRowPtr (code : LdpcCode) : List ℕ := starts code.m (csrRowCount code)

/-- `num_edges = row_ptr[m]`. -/
def csrNumEdges (code : LdpcCode) : ℕ := (csrRowPtr code).getD code.m 0

/-- The second pass: `row_count` counts again, from zero, and `col_idx` is stored to.  The
state also records which slots have been written. -/
def csrFill (code : LdpcCode) : BucketFill.State ℕ :=
  let put := store (csrRowPtr code)
  let s := code.foldInfo (fun s cn vn => put s (cn, vn))
    { count := List.replicate code.m 0, slots := List.replicate (csrNumEdges code) 0,
      stored := [] }
  let s := put s (0, code.k + 0)
  (List.range' 1 (code.m - 1)).foldl
    (fun s i => put (put s (i, code.k + i - 1)) (i, code.k + i)) s

/-- `build_csr`. -/
def buildCsr (code : LdpcCode) : LdpcCsr :=
  { numRows := code.m
    numCols := code.n
    rowPtr := csrRowPtr code
    colIdx := (csrFill code).slots
    numEdges := csrNumEdges code }

/-- The parity of one row, with `neg` telling which variable nodes count as ones. -/
def csrRowParity (csr : LdpcCsr) (neg : ℕ → Bool) (i : ℕ) : Bool :=
  let rowStart := csr.rowPtr.getD i 0
  let rowEnd := csr.rowPtr.getD (i + 1) 0
  (List.range' rowStart (rowEnd - rowStart)).foldl
    (fun parity j => if neg (csr.colIdx.getD j 0) then !parity else parity) false

/-! ### The edges -/

/-- The ones of the information part, in the order both passes meet them. -/
def infoEdges (code : LdpcCode) : List (ℕ × ℕ) :=
  (List.range code.numGroups).flatMap fun group =>
    (List.range ldpcParallel).flatMap fun j =>
      (code.group group).map fun a => (code.checkNode j a, group * ldpcParallel + j)

/-- The staircase. -/
def parityEdges (code : LdpcCode) : List (ℕ × ℕ) :=
  (0, code.k) :: (List.range' 1 (code.m - 1)).flatMap fun i =>
    [(i, code.k + i - 1), (i, code.k + i)]

def csrEdges (code : LdpcCode) : List (ℕ × ℕ) := infoEdges code ++ parityEdges code

/-- The columns of row `r`. -/
def csrRow (code : LdpcCode) (r : ℕ) : List ℕ := bucket (csrEdges code) r

theorem foldInfo_eq {σ : Type*} (code : LdpcCode) (body : σ → ℕ → ℕ → σ) (s : σ) :
    code.foldInfo body s = (infoEdges code).foldl (fun s e => body s e.1 e.2) s := by
  simp only [LdpcCode.foldInfo, infoEdges, List.foldl_flatMap, List.foldl_map]

theorem mem_infoEdges {code : LdpcCode} {e : ℕ × ℕ} :
    e ∈ infoEdges code ↔ ∃ group < code.numGroups, ∃ j < ldpcParallel,
      ∃ a ∈ code.group group, (code.checkNode j a, group * ldpcParallel + j) = e := by
  simp only [infoEdges, List.mem_flatMap, List.mem_range, List.mem_map]

section
variable {code : LdpcCode} (hcode : code.WellFormed)
include hcode

theorem LdpcCode.WellFormed.m_eq : code.m = ldpcParallel * code.q := by
  rw [LdpcCode.m, hcode.n_eq]
  omega

/-- An address of a group, moved along its circulant, stays a check node. -/
theorem LdpcCode.WellFormed.checkNode_lt {group j a : ℕ} (hgroup : group < code.numGroups)
    (ha : a ∈ code.group group) : code.checkNode j a < code.m := by
  have := hcode.addr_lt group hgroup a ha
  exact Nat.mod_lt _ (by omega)

theorem LdpcCode.WellFormed.infoEdges_bound {e : ℕ × ℕ} (he : e ∈ infoEdges code) :
    e.1 < code.m ∧ e.2 < code.k := by
  obtain ⟨group, hgroup, j, hj, a, ha, rfl⟩ := mem_infoEdges.mp he
  refine ⟨hcode.checkNode_lt hgroup ha, ?_⟩
  have hle : (group + 1) * ldpcParallel ≤ code.numGroups * ldpcParallel :=
    Nat.mul_le_mul_right _ hgroup
  rw [hcode.k_eq, Nat.mul_comm ldpcParallel]
  rw [Nat.add_mul, Nat.one_mul] at hle
  dsimp only
  omega

theorem LdpcCode.WellFormed.csrEdges_bound (hm : 0 < code.m) {e : ℕ × ℕ}
    (he : e ∈ csrEdges code) : e.1 < code.m ∧ e.2 < code.n := by
  have hn : code.n = code.k + code.m := by
    rw [hcode.m_eq, hcode.n_eq]
  rcases List.mem_append.mp he with hinfo | hparity
  · have := hcode.infoEdges_bound hinfo
    omega
  · rcases List.mem_cons.mp hparity with rfl | hstair
    · exact ⟨hm, by omega⟩
    · obtain ⟨i, hi, he⟩ := List.mem_flatMap.mp hstair
      rw [List.mem_range'_1] at hi
      simp only [List.mem_cons, List.not_mem_nil, or_false] at he
      rcases he with rfl | rfl
      · exact ⟨by omega, by omega⟩
      · exact ⟨by omega, by omega⟩

end

/-! ### The two passes -/

/-- The staircase in row `r`. -/
def stairRow (code : LdpcCode) (r : ℕ) : List ℕ :=
  if r = 0 then [code.k] else [code.k + r - 1, code.k + r]

theorem bucket_parityEdges {code : LdpcCode} {r : ℕ} (hr : r < code.m) :
    bucket (parityEdges code) r = stairRow code r := by
  have hstair : ∀ n start : ℕ, 0 < start →
      bucket ((List.range' start n).flatMap fun i => [(i, code.k + i - 1), (i, code.k + i)]) r
        = if start ≤ r ∧ r < start + n then [code.k + r - 1, code.k + r] else [] := by
    intro n
    induction n with
    | zero =>
      intro start _
      rw [if_neg (by omega)]
      rfl
    | succ n ih =>
      intro start hstart
      rw [List.range'_succ, List.flatMap_cons, bucket_append, ih (start + 1) (by omega)]
      by_cases hsr : start = r
      · subst hsr
        rw [if_neg (by omega), if_pos (by omega)]
        simp [bucket]
      · rw [show bucket [(start, code.k + start - 1), (start, code.k + start)] r = [] by
          simp [bucket, hsr], List.nil_append]
        refine if_congr ?_ rfl rfl
        omega
  rw [parityEdges, ← List.singleton_append, bucket_append, hstair _ _ Nat.one_pos, stairRow]
  by_cases hr0 : r = 0
  · subst hr0
    rw [if_neg (by omega), if_pos rfl]
    rfl
  · rw [if_neg hr0, if_pos (by omega), show bucket [(0, code.k)] r = [] by
      simp [bucket, Ne.symm hr0], List.nil_append]

/-- A row of the matrix: its information columns, then its staircase. -/
theorem csrRow_split {code : LdpcCode} {r : ℕ} (hr : r < code.m) :
    csrRow code r = bucket (infoEdges code) r ++ stairRow code r := by
  rw [csrRow, csrEdges, bucket_append, bucket_parityEdges hr]

theorem csrRowCount_getD {code : LdpcCode} {r : ℕ} (hr : r < code.m) :
    (csrRowCount code).getD r 0 = (csrRow code r).length := by
  have hstair : ∀ n start : ℕ, ∀ counts : List ℕ, r < counts.length →
      ((List.range' start n).foldl (fun counts i => counts.modify i (· + 2)) counts).getD r 0
        = counts.getD r 0 + if start ≤ r ∧ r < start + n then 2 else 0 := by
    intro n
    induction n with
    | zero =>
      intro start counts _
      rw [if_neg (by omega)]
      rfl
    | succ n ih =>
      intro start counts hlen
      rw [List.range'_succ, List.foldl_cons,
        ih (start + 1) _ (by rw [List.length_modify]; exact hlen), getD_modify_add _ _ hlen]
      by_cases hsr : start = r
      · rw [if_pos hsr, if_neg (by omega), if_pos (by omega)]
      · rw [if_neg hsr, Nat.add_zero]
        congr 1
        refine if_congr ?_ rfl rfl
        omega
  have hinfo := foldInfo_eq code (fun (counts : List ℕ) cn _ => counts.modify cn (· + 1))
    (List.replicate code.m 0)
  have hlen : (countRows (List.replicate code.m 0) (infoEdges code)).length = code.m := by
    rw [countRows_length, List.length_replicate]
  rw [csrRowCount, hinfo]
  change (List.foldl _ ((countRows (List.replicate code.m 0) (infoEdges code)).modify 0 _) _).getD
    r 0 = _
  rw [hstair _ _ _ (by rw [List.length_modify, hlen]; exact hr),
    getD_modify_add _ _ (by rw [hlen]; exact hr),
    countRows_getD _ _ (by rw [List.length_replicate]; exact hr), csrRow_split hr,
    List.length_append, stairRow]
  have hzero : (List.replicate code.m 0).getD r 0 = 0 := by
    simp [List.getD_eq_getElem?_getD, hr]
  rw [hzero]
  by_cases hr0 : r = 0
  · rw [if_pos hr0.symm, if_neg (by omega), if_pos hr0, List.length_singleton]
    omega
  · rw [if_neg (Ne.symm hr0), if_pos (by omega), if_neg hr0]
    simp

theorem csrRowPtr_getD {code : LdpcCode} {r : ℕ} (hr : r ≤ code.m) :
    (csrRowPtr code).getD r 0 = offset (csrEdges code) r :=
  starts_getD (fun _ h => csrRowCount_getD h) hr

theorem csrFill_eq (code : LdpcCode) :
    csrFill code = fill (csrRowPtr code)
      { count := List.replicate code.m 0, slots := List.replicate (csrNumEdges code) 0,
        stored := [] } (csrEdges code) := by
  rw [csrEdges, fill_append, parityEdges]
  simp only [csrFill, foldInfo_eq, fill, Prod.mk.eta, Nat.add_zero, List.foldl_cons,
    List.foldl_flatMap, List.foldl_nil]

section
variable {code : LdpcCode} (hcode : code.WellFormed)
include hcode

theorem LdpcCode.WellFormed.csrFill_inv (hm : 0 < code.m) :
    Inv code.m (csrEdges code) (csrEdges code) (csrFill code) := by
  rw [csrFill_eq]
  apply fill_inv
  · intro r hr
    exact csrRowPtr_getD hr.le
  · intro e he
    exact (hcode.csrEdges_bound hm he).1
  · rw [List.length_replicate, csrNumEdges, csrRowPtr_getD le_rfl]

/-- **Every slot of `col_idx` is written exactly once**, whenever there is a check node. -/
theorem LdpcCode.WellFormed.csr_stored (hm : 0 < code.m) :
    (csrFill code).stored.Perm (List.range (buildCsr code).numEdges) := by
  have h := (hcode.csrFill_inv hm).stored_perm fun e he => (hcode.csrEdges_bound hm he).1
  rw [← csrRowPtr_getD le_rfl] at h
  exact h

/-- Slot `i` of row `r` of `col_idx`. -/
theorem LdpcCode.WellFormed.colIdx_getD {r i : ℕ} (hr : r < code.m)
    (hi : i < (csrRow code r).length) :
    (buildCsr code).colIdx.getD ((buildCsr code).rowPtr.getD r 0 + i) 0
      = (csrRow code r).getD i 0 := by
  have h := (hcode.csrFill_inv (by omega)).slot_eq r hr i hi
  change (csrFill code).slots.getD ((csrRowPtr code).getD r 0 + i) 0 = _
  rw [csrRowPtr_getD hr.le, List.getD_eq_getElem?_getD, h, List.getD_eq_getElem?_getD]
  rfl

omit hcode in
theorem rowPtr_succ {r : ℕ} (hr : r < code.m) :
    (buildCsr code).rowPtr.getD (r + 1) 0
      = (buildCsr code).rowPtr.getD r 0 + (csrRow code r).length := by
  change (csrRowPtr code).getD (r + 1) 0 = (csrRowPtr code).getD r 0 + _
  rw [csrRowPtr_getD hr, csrRowPtr_getD hr.le]
  rfl

/-- The columns of a row, read from `col_idx`. -/
theorem LdpcCode.WellFormed.csrRow_eq {r : ℕ} (hr : r < code.m) :
    (List.range' ((buildCsr code).rowPtr.getD r 0)
        ((buildCsr code).rowPtr.getD (r + 1) 0 - (buildCsr code).rowPtr.getD r 0)).map
      (fun j => (buildCsr code).colIdx.getD j 0) = csrRow code r := by
  rw [rowPtr_succ hr, Nat.add_sub_cancel_left]
  apply List.ext_getElem
  · rw [List.length_map, List.length_range']
  · intro i h₁ h₂
    rw [List.getElem_map, List.getElem_range', Nat.one_mul, hcode.colIdx_getD hr h₂,
      List.getD_eq_getElem?_getD, List.getElem?_eq_getElem h₂, Option.getD_some]

/-- Every column stored is a variable node. -/
theorem LdpcCode.WellFormed.colIdx_lt {p : ℕ} (hp : p < (buildCsr code).numEdges) :
    (buildCsr code).colIdx.getD p 0 < code.n := by
  rcases Nat.eq_zero_or_pos code.m with hm | hm
  · -- no check nodes, no slots
    change p < (csrRowPtr code).getD code.m 0 at hp
    rw [csrRowPtr_getD le_rfl, hm] at hp
    exact absurd hp (Nat.not_lt_zero p)
  · change p < (csrRowPtr code).getD code.m 0 at hp
    rw [csrRowPtr_getD le_rfl] at hp
    obtain ⟨r, hr, i, hi, rfl⟩ := exists_row_of_lt_offset _ hp
    rw [← csrRowPtr_getD hr.le]
    change i < (csrRow code r).length at hi
    have h := hcode.colIdx_getD hr hi
    rw [List.getD_eq_getElem?_getD (l := csrRow code r), List.getElem?_eq_getElem hi,
      Option.getD_some] at h
    change (buildCsr code).colIdx.getD ((buildCsr code).rowPtr.getD r 0 + i) 0 < _
    rw [h]
    exact (hcode.csrEdges_bound hm (mem_bucket.mp (List.getElem_mem hi))).2

end

/-! ### Parities -/

/-- The parity of a list of bits. -/
def xorAll : List Bool → Bool
  | [] => false
  | b :: l => b ^^ xorAll l

@[simp] theorem xorAll_nil : xorAll [] = false := rfl

@[simp] theorem xorAll_cons (b : Bool) (l : List Bool) : xorAll (b :: l) = (b ^^ xorAll l) := rfl

theorem xorAll_append (l l' : List Bool) : xorAll (l ++ l') = (xorAll l ^^ xorAll l') := by
  induction l with
  | nil => simp
  | cons b l ih => rw [List.cons_append, xorAll_cons, xorAll_cons, ih, Bool.xor_assoc]

theorem foldl_toggle {α : Type*} (f : α → Bool) (l : List α) (p : Bool) :
    l.foldl (fun parity x => if f x then !parity else parity) p = (p ^^ xorAll (l.map f)) := by
  induction l generalizing p with
  | nil => simp
  | cons x l ih =>
    rw [List.foldl_cons, ih, List.map_cons, xorAll_cons, ← Bool.xor_assoc]
    congr 1
    cases f x <;> cases p <;> rfl

/-- **The parity of a row is the parity of its columns.** -/
theorem LdpcCode.WellFormed.csrRowParity_eq {code : LdpcCode} (hcode : code.WellFormed)
    (neg : ℕ → Bool) {r : ℕ} (hr : r < code.m) :
    csrRowParity (buildCsr code) neg r = xorAll ((csrRow code r).map neg) := by
  rw [csrRowParity, foldl_toggle fun j => neg ((buildCsr code).colIdx.getD j 0), Bool.false_xor,
    ← hcode.csrRow_eq hr, List.map_map]
  rfl

/-- A row reads variable nodes of the code only. -/
theorem LdpcCode.WellFormed.csrRowParity_congr {code : LdpcCode} (hcode : code.WellFormed)
    {neg neg' : ℕ → Bool} (h : ∀ vn < code.n, neg vn = neg' vn) {r : ℕ} (hr : r < code.m) :
    csrRowParity (buildCsr code) neg r = csrRowParity (buildCsr code) neg' r := by
  rw [hcode.csrRowParity_eq _ hr, hcode.csrRowParity_eq _ hr]
  congr 1
  apply List.map_congr_left
  intro vn hvn
  exact h vn (hcode.csrEdges_bound (by omega) (mem_bucket.mp hvn)).2

/-! ### Row weights -/

/-- An address reaches a check node at most once, and only one of its own residue. -/
theorem LdpcCode.WellFormed.checkNode_count {code : LdpcCode} (hcode : code.WellFormed)
    (hq : 0 < code.q) (a : ℕ) {r : ℕ} :
    (List.range ldpcParallel).countP (fun j => code.checkNode j a = r)
      ≤ if a % code.q = r % code.q then 1 else 0 := by
  have hm : code.m = ldpcParallel * code.q := hcode.m_eq
  split
  · rw [List.countP_eq_length_filter,
      ← List.toFinset_card_of_nodup (List.nodup_range.filter _), Finset.card_le_one]
    intro j hj j' hj'
    simp only [List.mem_toFinset, List.mem_filter, List.mem_range, decide_eq_true_eq] at hj hj'
    have hmod : (a + j * code.q) % (ldpcParallel * code.q)
        = (a + j' * code.q) % (ldpcParallel * code.q) := by
      rw [← hm]
      exact hj.2.trans hj'.2.symm
    have hmul : j * code.q ≡ j' * code.q [MOD ldpcParallel * code.q] :=
      Nat.ModEq.add_left_cancel' a hmod
    exact Nat.ModEq.eq_of_lt_of_lt (Nat.ModEq.mul_right_cancel' hq.ne' hmul) hj.1 hj'.1
  · rename_i hres
    rw [Nat.le_zero, List.countP_eq_zero]
    intro j _ hj
    refine hres ?_
    have hdvd : code.q ∣ code.m := hm ▸ Nat.dvd_mul_left _ _
    rw [← of_decide_eq_true hj, LdpcCode.checkNode, Nat.mod_mod_of_dvd _ hdvd,
      Nat.add_mul_mod_self_right]

/-- The number of addresses of a residue. -/
def LdpcCode.residueWeight (code : LdpcCode) (ρ : ℕ) : ℕ :=
  ((List.range code.numGroups).map fun g => (code.group g).countP fun a => a % code.q = ρ).sum

theorem sum_countP_le {α : Type*} {js : List ℕ} {p : ℕ → α → Bool} {p' : α → Bool}
    (h : ∀ a, js.countP (p · a) ≤ if p' a then 1 else 0) (l : List α) :
    (js.map fun j => l.countP (p j)).sum ≤ l.countP p' := by
  induction l with
  | nil => simp
  | cons a l ih =>
    have hsplit : (js.map fun j => (a :: l).countP (p j)).sum
        = (js.map fun j => l.countP (p j)).sum + js.countP (p · a) := by
      clear ih h
      induction js with
      | nil => rfl
      | cons j js ihj =>
        rw [List.map_cons, List.sum_cons, List.map_cons, List.sum_cons, List.countP_cons,
          List.countP_cons, ihj]
        omega
    rw [hsplit, List.countP_cons]
    have := h a
    omega

/-- The information part of a row has at most as many columns as there are addresses of its
residue. -/
theorem LdpcCode.WellFormed.bucket_infoEdges_le {code : LdpcCode} (hcode : code.WellFormed)
    (hq : 0 < code.q) (r : ℕ) :
    (bucket (infoEdges code) r).length ≤ code.residueWeight (r % code.q) := by
  rw [bucket, List.length_map, ← List.countP_eq_length_filter, infoEdges, List.countP_flatMap,
    LdpcCode.residueWeight]
  refine List.sum_le_sum fun g _ => ?_
  rw [Function.comp_apply, List.countP_flatMap]
  simp only [Function.comp_def, List.countP_map]
  refine sum_countP_le (fun a => ?_) (code.group g)
  simpa only [decide_eq_true_eq] using hcode.checkNode_count hq a

/-- **Rows are short**: no code of the table has a row of more than five columns. -/
theorem modcod_rowWeight {mc : Modcod} (hmc : mc ∈ vlsnrModcodTable) {code : LdpcCode}
    (hinit : ldpcCodeInit mc = some code) {r : ℕ} (hr : r < code.m) :
    (csrRow code r).length ≤ 5 := by
  have h : ∀ mc ∈ vlsnrModcodTable, ∃ code ∈ ldpcCodeInit mc,
      ∀ ρ < code.q, code.residueWeight ρ ≤ 3 := by
    decide +kernel
  obtain ⟨_, hinit', hweight⟩ := h mc hmc
  obtain rfl := Option.some.inj (hinit.symm.trans hinit')
  obtain ⟨_, hinit', hcode, hq, -⟩ := modcod_ldpcCode mc hmc
  obtain rfl := Option.some.inj (hinit.symm.trans hinit')
  have hinfo := (hcode.bucket_infoEdges_le hq r).trans (hweight _ (Nat.mod_lt r hq))
  have hstair : (stairRow code r).length ≤ 2 := by
    rw [stairRow]
    split <;> simp
  rw [csrRow_split hr, List.length_append]
  omega

end OpenVlsnr
