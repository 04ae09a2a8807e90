import OpenVlsnr.BitPoly
import OpenVlsnr.LdpcCsr
import OpenVlsnr.ListGetD

/-!
# The LDPC encoder (`ldpc_encode.c`)

`dvbs2x_ldpc_encode` flips, for every information bit that is set, the parity bits at the
addresses of its group, moved on by `q` for each column of the circulant and wrapped by one
subtraction; it then accumulates the parity bits.

The flips hit exactly the check nodes of `infoEdges` (`encodeFlips_getD`), so before the
accumulation bit `r` is the parity of row `r` over the information bits, and the accumulator
solves the staircase row by row.  A word therefore passes the decoder's convergence test exactly
when it is the encoding of its first `k` bits.
-/

namespace OpenVlsnr

open BucketFill

/-! ### The encoder -/

/-- The parity flips of one information bit. -/
def encodeFlip (m shift : ℕ) (parity : List Bool) (addrs : List ℕ) : List Bool :=
  addrs.foldl (fun parity a =>
    let addr := a + shift
    parity.modify (if addr ≥ m then addr - m else addr) not) parity

/-- One group: `shift` grows by `q` with every column. -/
def encodeGroup (code : LdpcCode) (info : List Bool) (parity : List Bool) (group : ℕ) :
    List Bool :=
  ((List.range ldpcParallel).foldl (fun s j =>
    let bitIdx := group * ldpcParallel + j
    (if info.getD bitIdx false then encodeFlip code.m s.2 s.1 (code.group group) else s.1,
      s.2 + code.q)) (parity, 0)).1

/-- Step 1, all groups. -/
def encodeFlips (code : LdpcCode) (info : List Bool) : List Bool :=
  (List.range code.numGroups).foldl (encodeGroup code info) (List.replicate code.m false)

/-- Step 2: `parity[i] ^= parity[i - 1]`. -/
def encodeAccumulate (m : ℕ) (parity : List Bool) : List Bool :=
  (List.range' 1 (m - 1)).foldl
    (fun parity i => parity.set i (parity.getD i false ^^ parity.getD (i - 1) false)) parity

/-- `dvbs2x_ldpc_encode`. -/
def ldpcEncode (code : LdpcCode) (info : List Bool) : List Bool :=
  info.take code.k ++ encodeAccumulate code.m (encodeFlips code info)

/-! ### The flips -/

/-- The incremental shift of column `j` is `j * q`. -/
theorem foldl_shift {σ : Type*} (f : σ → ℕ → ℕ → σ) (q n : ℕ) (s : σ) :
    (List.range n).foldl (fun s j => (f s.1 s.2 j, s.2 + q)) (s, 0)
      = ((List.range n).foldl (fun s j => f s (j * q) j) s, n * q) := by
  induction n with
  | zero => simp
  | succ n ih =>
    rw [List.range_succ, List.foldl_append, List.foldl_append, ih, List.foldl_cons,
      List.foldl_nil, List.foldl_cons, List.foldl_nil, Nat.succ_mul]

/-- One subtraction is enough. -/
theorem wrap_eq_mod {a shift m : ℕ} (ha : a < m) (hshift : shift < m) :
    (if a + shift ≥ m then a + shift - m else a + shift) = (a + shift) % m := by
  by_cases h : m ≤ a + shift
  · rw [if_pos h, Nat.mod_eq_sub_mod h, Nat.mod_eq_of_lt (by omega)]
  · rw [if_neg h, Nat.mod_eq_of_lt (by omega)]

/-- Flip the row of every edge whose column is set. -/
def flipEdges (one : ℕ → Bool) (parity : List Bool) (edges : List (ℕ × ℕ)) : List Bool :=
  edges.foldl (fun parity e => if one e.2 then parity.modify e.1 not else parity) parity

theorem flipEdges_length (one : ℕ → Bool) (parity : List Bool) (edges : List (ℕ × ℕ)) :
    (flipEdges one parity edges).length = parity.length := by
  induction edges generalizing parity with
  | nil => rfl
  | cons e edges ih =>
    rw [flipEdges, List.foldl_cons, ← flipEdges, ih]
    split
    · rw [List.length_modify]
    · rfl

theorem flipEdges_getD (one : ℕ → Bool) (parity : List Bool) (edges : List (ℕ × ℕ))
    (hedges : ∀ e ∈ edges, e.1 < parity.length) (r : ℕ) :
    (flipEdges one parity edges).getD r false
      = (parity.getD r false ^^ xorAll ((bucket edges r).map one)) := by
  induction edges generalizing parity with
  | nil => simp [flipEdges]
  | cons e edges ih =>
    have he := hedges e List.mem_cons_self
    have hlen : (if one e.2 then parity.modify e.1 not else parity).length = parity.length := by
      split
      · rw [List.length_modify]
      · rfl
    rw [flipEdges, List.foldl_cons, ← flipEdges, ih _ fun e' he' => by
      rw [hlen]
      exact hedges e' (List.mem_cons_of_mem e he')]
    rw [← List.singleton_append, bucket_append, List.map_append, xorAll_append, ← Bool.xor_assoc]
    congr 1
    by_cases hone : one e.2
    · rw [if_pos hone, getD_modify_not _ _ _ he]
      by_cases hr : r = e.1
      · simp [bucket, hr, hone]
      · simp [bucket, hr, Ne.symm hr]
    · rw [if_neg hone]
      by_cases hr : e.1 = r
      · simp [bucket, hr, hone]
      · simp [bucket, hr]

section
variable {code : LdpcCode} (hcode : code.WellFormed)
include hcode

/-- The loops of the encoder run over the edges of the decoder. -/
theorem LdpcCode.WellFormed.encodeFlips_eq (info : List Bool) :
    encodeFlips code info
      = flipEdges (fun vn => info.getD vn false) (List.replicate code.m false)
          (infoEdges code) := by
  rw [encodeFlips, flipEdges, infoEdges, List.foldl_flatMap]
  apply List.foldl_ext
  intro parity group hgroup
  rw [List.mem_range] at hgroup
  rw [encodeGroup, List.foldl_flatMap,
    foldl_shift (fun parity shift j => if info.getD (group * ldpcParallel + j) false then
      encodeFlip code.m shift parity (code.group group) else parity)]
  apply List.foldl_ext
  intro parity j hj
  rw [List.mem_range] at hj
  rw [List.foldl_map]
  by_cases hbit : info.getD (group * ldpcParallel + j) false
  · simp only [hbit, if_true, encodeFlip]
    apply List.foldl_ext
    intro parity a ha
    have haddr := hcode.addr_lt group hgroup a ha
    have hq : 0 < code.q := by
      rw [hcode.m_eq] at haddr
      exact Nat.pos_of_ne_zero fun h0 => by simp [h0] at haddr
    have hshift : j * code.q < code.m := by
      rw [hcode.m_eq]
      exact Nat.mul_lt_mul_of_pos_right hj hq
    rw [wrap_eq_mod haddr hshift]
    rfl
  · simp only [hbit, Bool.false_eq_true, if_false, List.foldl_fixed]

/-- **Before the accumulation, bit `r` is the parity of row `r` over the information bits.** -/
theorem LdpcCode.WellFormed.encodeFlips_getD (info : List Bool) (r : ℕ) :
    (encodeFlips code info).getD r false
      = xorAll ((bucket (infoEdges code) r).map fun vn => info.getD vn false) := by
  rw [hcode.encodeFlips_eq, flipEdges_getD _ _ _ fun e he => by
    rw [List.length_replicate]
    exact (hcode.infoEdges_bound he).1]
  rw [getD_replicate_self, Bool.false_xor]

theorem LdpcCode.WellFormed.encodeFlips_length (info : List Bool) :
    (encodeFlips code info).length = code.m := by
  rw [hcode.encodeFlips_eq, flipEdges_length, List.length_replicate]

end

/-! ### The accumulator -/

/-- After the pass over `i = 1, ..., n` every bit up to `n` is the sum of its own old value and
the new value before it; the bits behind are untouched. -/
theorem accumulate_spec {parity : List Bool} (n : ℕ) (hn : n < parity.length) {acc : List Bool}
    (hacc : (List.range' 1 n).foldl
      (fun p i => p.set i (p.getD i false ^^ p.getD (i - 1) false)) parity = acc) :
    acc.length = parity.length ∧ acc.getD 0 false = parity.getD 0 false ∧
      (∀ i < n, acc.getD (i + 1) false = (parity.getD (i + 1) false ^^ acc.getD i false)) ∧
      ∀ i, n < i → acc.getD i false = parity.getD i false := by
  induction n generalizing acc with
  | zero =>
    subst hacc
    exact ⟨rfl, rfl, fun i hi => absurd hi (Nat.not_lt_zero i), fun i _ => rfl⟩
  | succ n ih =>
    rw [List.range'_1_concat, List.foldl_append, List.foldl_cons, List.foldl_nil] at hacc
    obtain ⟨hlen, hzero, hold, hrest⟩ := ih (by omega) rfl
    generalize hprev : (List.range' 1 n).foldl
      (fun p i => p.set i (p.getD i false ^^ p.getD (i - 1) false)) parity = prev at *
    have hset : ∀ i, acc.getD i false = if i = n + 1 then
        (parity.getD (n + 1) false ^^ prev.getD n false) else prev.getD i false := by
      intro i
      rw [← hacc, Nat.add_comm 1 n, Nat.add_sub_cancel, hrest (n + 1) (by omega),
        getD_set _ _ _ _ (by omega)]
    refine ⟨by rw [← hacc, List.length_set, hlen], ?_, fun i hi => ?_, fun i hi => ?_⟩
    · rw [hset, if_neg (by omega), hzero]
    · by_cases hin : i = n
      · subst hin
        rw [hset, if_pos rfl, hset, if_neg (by omega)]
      · rw [hset, if_neg (by omega), hset, if_neg (by omega), hold i (by omega)]
    · rw [hset, if_neg (by omega), hrest i (by omega)]

theorem encodeAccumulate_length {m : ℕ} {parity : List Bool} (hlen : parity.length = m) :
    (encodeAccumulate m parity).length = m := by
  rcases Nat.eq_zero_or_pos m with hm | hm
  · subst hm
    exact hlen
  · rw [← hlen]
    exact (accumulate_spec (parity.length - 1) (by omega) rfl).1

/-- The accumulated bits satisfy the staircase, and only they do. -/
theorem eq_encodeAccumulate_iff {m : ℕ} {parity p : List Bool} (hlen : parity.length = m)
    (hp : p.length = m) :
    p = encodeAccumulate m parity ↔
      ∀ r < m, p.getD r false
        = (parity.getD r false ^^ if r = 0 then false else p.getD (r - 1) false) := by
  rcases Nat.eq_zero_or_pos m with hm | hm
  · subst hm
    rw [List.length_eq_zero_iff.mp hp, List.length_eq_zero_iff.mp hlen]
    simp [encodeAccumulate]
  have hacc : (List.range' 1 (m - 1)).foldl
      (fun p i => p.set i (p.getD i false ^^ p.getD (i - 1) false)) parity
        = encodeAccumulate m parity := rfl
  obtain ⟨hacclen, hzero, hstep, -⟩ := accumulate_spec (m - 1) (by omega) hacc
  constructor
  · rintro rfl r hr
    cases r with
    | zero => rw [hzero, if_pos rfl, Bool.xor_false]
    | succ r => rw [hstep r (by omega), if_neg (Nat.succ_ne_zero r), Nat.add_sub_cancel]
  · intro h
    refine list_ext_getD false (by rw [hp, hacclen, hlen]) fun r hr => ?_
    rw [hp] at hr
    -- both sides obey the same recurrence
    induction r with
    | zero => rw [hzero, h 0 hm, if_pos rfl, Bool.xor_false]
    | succ r ih =>
      rw [hstep r (by omega), h (r + 1) hr, if_neg (Nat.succ_ne_zero r), Nat.add_sub_cancel,
        ih (by omega)]

/-! ### Codewords -/

/-- The words that pass the convergence test of the decoder. -/
def ChecksSatisfied (code : LdpcCode) (c : List Bool) : Prop :=
  ∀ r < (buildCsr code).numRows,
    csrRowParity (buildCsr code) (fun vn => c.getD vn false) r = false

section
variable {code : LdpcCode} (hcode : code.WellFormed)
include hcode

/-- The parity of a row: its information columns and its staircase. -/
theorem LdpcCode.WellFormed.csrRowParity_split (c : List Bool) {r : ℕ} (hr : r < code.m) :
    csrRowParity (buildCsr code) (fun vn => c.getD vn false) r
      = ((encodeFlips code (c.take code.k)).getD r false
          ^^ (if r = 0 then false else (c.drop code.k).getD (r - 1) false)
          ^^ (c.drop code.k).getD r false) := by
  have hinfo : (bucket (infoEdges code) r).map (fun vn => c.getD vn false)
      = (bucket (infoEdges code) r).map fun vn => (c.take code.k).getD vn false := by
    apply List.map_congr_left
    intro vn hvn
    exact (getD_take (hcode.infoEdges_bound (mem_bucket.mp hvn)).2).symm
  rw [hcode.csrRowParity_eq _ hr, csrRow_split hr, List.map_append, xorAll_append, hinfo,
    ← hcode.encodeFlips_getD, stairRow, getD_drop, getD_drop]
  by_cases hr0 : r = 0
  · subst hr0
    simp
  · rw [if_neg hr0, if_neg hr0, show code.k + r - 1 = code.k + (r - 1) by omega]
    simp

/-- **The convergence test accepts exactly the encodings.** -/
theorem LdpcCode.WellFormed.checksSatisfied_iff {c : List Bool} (hc : c.length = code.n) :
    ChecksSatisfied code c ↔ c = ldpcEncode code (c.take code.k) := by
  have hdrop : (c.drop code.k).length = code.m := by
    rw [List.length_drop, hc, LdpcCode.m]
  have hsplit : c = ldpcEncode code (c.take code.k) ↔
      c.drop code.k = encodeAccumulate code.m (encodeFlips code (c.take code.k)) := by
    rw [ldpcEncode, List.take_take, min_self]
    constructor
    · intro h
      have htake : (c.take code.k).length = code.k := by
        rw [List.length_take, hc, hcode.n_eq]
        omega
      have h' := congrArg (List.drop code.k) h
      rw [List.drop_append_of_le_length htake.ge, List.drop_eq_nil_of_le htake.le,
        List.nil_append] at h'
      exact h'
    · intro h
      rw [← h, List.take_append_drop]
  rw [hsplit, eq_encodeAccumulate_iff (hcode.encodeFlips_length _) hdrop]
  apply forall_congr'
  intro r
  apply forall_congr'
  intro hr
  rw [hcode.csrRowParity_split c hr]
  generalize (encodeFlips code (c.take code.k)).getD r false = s
  generalize (if r = 0 then false else (c.drop code.k).getD (r - 1) false) = prev
  cases s <;> cases prev <;> cases (c.drop code.k).getD r false <;> simp

end

theorem ldpcEncode_length {code : LdpcCode} (hcode : code.WellFormed) {info : List Bool}
    (hinfo : info.length = code.k) : (ldpcEncode code info).length = code.n := by
  rw [ldpcEncode, List.length_append, encodeAccumulate_length (hcode.encodeFlips_length info),
    List.length_take, hinfo, min_self, hcode.m_eq, hcode.n_eq]

theorem ldpcEncode_take {code : LdpcCode} {info : List Bool} (hinfo : info.length = code.k) :
    (ldpcEncode code info).take code.k = info := by
  rw [ldpcEncode, ← hinfo, List.take_length, List.take_left]

/-- **Encoder and decoder use the same code.**  The rows of the matrix are even exactly on the
encodings, every slot of `col_idx` is written once and holds a variable node, and this covers
every MODCOD. -/
theorem ldpcCheck_iff_encode :
    (∀ code : LdpcCode, code.WellFormed →
      (∀ c : List Bool, c.length = code.n →
        ((∀ r < (buildCsr code).numRows,
            csrRowParity (buildCsr code) (fun vn => c.getD vn false) r = false) ↔
          c = ldpcEncode code (c.take code.k))) ∧
      ∀ p < (buildCsr code).numEdges,
        (csrFill code).stored.count p = 1 ∧ (buildCsr code).colIdx.getD p 0 < code.n) ∧
    ∀ mc ∈ vlsnrModcodTable, ∃ code, ldpcCodeInit mc = some code ∧ code.WellFormed := by
  constructor
  · intro code hcode
    refine ⟨fun c hc => hcode.checksSatisfied_iff hc, fun p hp => ⟨?_, hcode.colIdx_lt hp⟩⟩
    have hm : 0 < code.m := by
      by_contra hm
      change p < (csrRowPtr code).getD code.m 0 at hp
      rw [csrRowPtr_getD le_rfl, Nat.eq_zero_of_not_pos hm] at hp
      exact Nat.not_lt_zero p hp
    rw [(hcode.csr_stored hm).count_eq, List.nodup_range.count, if_pos (List.mem_range.mpr hp)]
  · intro mc hmc
    obtain ⟨code, hinit, hcode, -⟩ := modcod_ldpcCode mc hmc
    exact ⟨code, hinit, hcode⟩

/-- A code with one circulant of one address: the word of a message of ones passes, and with its
first bit turned it does not. -/
theorem ldpcCheck_iff_encode_one_circulant :
    let code : LdpcCode := { n := 720, k := 360, q := 1, numGroups := 1, table := [⟨1, [7]⟩] }
    let c := ldpcEncode code (List.replicate 360 true)
    (∀ r < (buildCsr code).numRows,
        csrRowParity (buildCsr code) (fun vn => c.getD vn false) r = false) ∧
      ¬∀ r < (buildCsr code).numRows,
        csrRowParity (buildCsr code) (fun vn => (c.set 0 false).getD vn false) r = false := by
  intro code c
  have hcode : code.WellFormed := by decide
  have hinfo : (List.replicate 360 true).length = code.k := List.length_replicate
  have hlen : c.length = code.n := ldpcEncode_length hcode hinfo
  constructor
  · refine ((ldpcCheck_iff_encode.1 code hcode).1 c hlen).mpr ?_
    rw [show c.take code.k = List.replicate 360 true from ldpcEncode_take hinfo]
  · rw [(ldpcCheck_iff_encode.1 code hcode).1 (c.set 0 false) (by rw [List.length_set, hlen])]
    have hturned : c.set 0 false ≠ ldpcEncode code ((c.set 0 false).take code.k) := by
      decide +kernel
    exact hturned

end OpenVlsnr
