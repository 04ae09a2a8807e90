import OpenVlsnr.LdpcPass

/-!
# How decoding ends (`ldpc_decode.c`)

The convergence check runs after every iteration at first, then after every fifth one, and always
after the last.  Whatever the message arithmetic, the iterations end in one of three ways
(`LdpcEnd`): a check that all rows pass, a cancellation before an iteration starts, or a last
iteration that fails its check.

* `ldpcLoop_end` - the loop, by induction on the iterations left;
* `ldpcDecode_exits` - the call: success is a codeword, cancellation touches nothing, and failure
  has run all iterations.
-/

namespace OpenVlsnr

section
variable {R : Type*} [Zero R] [Add R] [Sub R] [LT R] [DecidableLT R]

/-- The three ends of the iterations from `iter` on. -/
inductive LdpcEnd (dec : LdpcDecoder) (cancel : ℕ → Bool) (iter : ℕ) :
    LdpcStop × ℕ × LdpcState R → Prop
  | converged {iter' : ℕ} {s : LdpcState R} (hlow : iter < iter') (hhigh : iter' ≤ dec.maxIter)
      (hquiet : ∀ i, iter ≤ i → i < iter' → cancel i = false)
      (hconv : ldpcConverged dec.csr dec.code.m s = true) :
      LdpcEnd dec cancel iter (.converged, iter', s)
  | cancelled {iter' : ℕ} {s : LdpcState R} (hlow : iter ≤ iter') (hhigh : iter' < dec.maxIter)
      (hquiet : ∀ i, iter ≤ i → i < iter' → cancel i = false) (hcancel : cancel iter' = true) :
      LdpcEnd dec cancel iter (.cancelled, iter', s)
  | exhausted {s : LdpcState R}
      (hquiet : ∀ i, iter ≤ i → i < dec.maxIter → cancel i = false)
      (hconv : ldpcConverged dec.csr dec.code.m s = false) :
      LdpcEnd dec cancel iter (.exhausted, dec.maxIter, s)

variable {boxplus : R → R → R} {dec : LdpcDecoder} {cancel : ℕ → Bool}

omit [Add R] [Sub R] in
/-- An iteration that goes on does not change how the later ones end. -/
theorem LdpcEnd.earlier {iter : ℕ} {r : LdpcStop × ℕ × LdpcState R}
    (h : LdpcEnd dec cancel (iter + 1) r) (hgo : cancel iter = false) :
    LdpcEnd dec cancel iter r := by
  have hback : ∀ {iter' : ℕ}, (∀ i, iter + 1 ≤ i → i < iter' → cancel i = false) →
      ∀ i, iter ≤ i → i < iter' → cancel i = false := by
    intro iter' hquiet i hlow hhigh
    obtain rfl | hlt := eq_or_lt_of_le hlow
    · exact hgo
    · exact hquiet i hlt hhigh
  cases h with
  | converged hlow hhigh hquiet hconv => exact .converged (by omega) hhigh (hback hquiet) hconv
  | cancelled hlow hhigh hquiet hcancel => exact .cancelled (by omega) hhigh (hback hquiet) hcancel
  | exhausted hquiet hconv => exact .exhausted (hback hquiet) hconv

/-- **The loop**, by induction on the iterations left.  An iteration that skips the check is not
the last one, so the loop runs out only behind a check that failed. -/
theorem ldpcLoop_end (left : ℕ) : ∀ (iter : ℕ) (s : LdpcState R), iter + left = dec.maxIter →
    (left = 0 → ldpcConverged dec.csr dec.code.m s = false) →
    LdpcEnd dec cancel iter (ldpcLoop boxplus dec cancel left iter s) := by
  induction left with
  | zero =>
    intro iter s hsum hfailed
    obtain rfl : iter = dec.maxIter := by omega
    exact .exhausted (fun i hlow hhigh => absurd hhigh (not_lt.mpr hlow)) (hfailed rfl)
  | succ left ih =>
    intro iter s hsum hfailed
    rw [ldpcLoop]
    cases hcancel : cancel iter with
    | true =>
      rw [if_pos rfl]
      exact .cancelled le_rfl (by omega) (fun i hlow hhigh => absurd hhigh (not_lt.mpr hlow))
        hcancel
    | false =>
      rw [if_neg Bool.false_ne_true]
      dsimp only
      generalize ldpcPass boxplus dec.csr dec.code.m s = s'
      split_ifs with hskip hconv
      · exact (ih (iter + 1) s' (by omega) (by omega)).earlier hcancel
      · refine .converged (Nat.lt_succ_self iter) (by omega) (fun i hlow hhigh => ?_) hconv
        obtain rfl : i = iter := by omega
        exact hcancel
      · exact (ih (iter + 1) s' (by omega) fun _ => Bool.eq_false_iff.mpr hconv).earlier hcancel

/-! ### The call -/

/-- The hard decisions on the first `n` beliefs. -/
def hardDecisions (vnLlr : List R) (n : ℕ) : List Bool :=
  (List.range n).map fun i => decide (vnLlr.getD i 0 < 0)

omit [Add R] [Sub R] in
/-- The check that ends the loop looks at every row. -/
theorem ldpcConverged_iff (s : LdpcState R) :
    ldpcConverged dec.csr dec.code.m s = true ↔
      ∀ i < dec.code.m, csrRowParity dec.csr s.neg i = false := by
  rw [ldpcConverged, List.all_eq_true]
  simp only [List.mem_range, Bool.not_eq_true']

omit [Add R] [Sub R] in
theorem hardDecisions_getD {vnLlr : List R} {n vn : ℕ} (hvn : vn < n) :
    (hardDecisions vnLlr n).getD vn false = decide (vnLlr.getD vn 0 < 0) := by
  rw [hardDecisions, getD_map_range, if_pos hvn]

omit [Add R] [Sub R] in
/-- Beliefs that pass the check decide for a codeword. -/
theorem hardDecisions_eq_encode {dec : LdpcDecoder} (hcode : dec.code.WellFormed)
    (hcsr : dec.csr = buildCsr dec.code) {s : LdpcState R}
    (hconv : ldpcConverged dec.csr dec.code.m s = true) :
    hardDecisions s.vnLlr dec.code.n
      = ldpcEncode dec.code (hardDecisions s.vnLlr dec.code.k) := by
  have hlen : (hardDecisions s.vnLlr dec.code.n).length = dec.code.n := by
    rw [hardDecisions, List.length_map, List.length_range]
  have hk : dec.code.k ≤ dec.code.n := by
    rw [hcode.n_eq]
    exact Nat.le_add_right _ _
  have hchecks : ChecksSatisfied dec.code (hardDecisions s.vnLlr dec.code.n) := fun r hr => by
    rw [hcode.csrRowParity_congr (fun vn hvn => hardDecisions_getD hvn) hr, ← hcsr]
    exact (ldpcConverged_iff s).mp hconv r hr
  have htake : (hardDecisions s.vnLlr dec.code.n).take dec.code.k
      = hardDecisions s.vnLlr dec.code.k := by
    rw [hardDecisions, ← List.map_take, List.take_range, min_eq_left hk]
    rfl
  rw [← htake]
  exact (hcode.checksSatisfied_iff hlen).mp hchecks

/-- **The three exits of a decoding call**, with any message arithmetic and any cancellations.  On
success the hard decisions on all beliefs are the encoding of the output, after one iteration or
more, `max_iter` at the most.  A cancellation leaves the output alone, before the last iteration.
Otherwise all iterations have run, the output is the hard decisions on the information bits, and
those on all beliefs violate a row. -/
theorem ldpcDecode_exits {mc : Modcod} (hmc : mc ∈ vlsnrModcodTable) {maxIter : ℕ}
    (hiter : 1 ≤ maxIter) {dec : LdpcDecoder} (hdec : ldpcDecoderInit mc maxIter = some dec)
    (boxplus : R → R → R) (cancel : ℕ → Bool) (llr : List R) (output : List Bool) :
    let r := ldpcDecode boxplus dec cancel llr output
    (r.ret = 0 ∧ hardDecisions r.vnLlr dec.code.n = ldpcEncode dec.code r.output ∧
        1 ≤ r.iterUsed ∧ r.iterUsed ≤ maxIter ∧ ∀ i < r.iterUsed, cancel i = false) ∨
      (r.ret = -1 ∧ cancel r.iterUsed = true ∧ r.output = output ∧ r.iterUsed < maxIter ∧
        ∀ i < r.iterUsed, cancel i = false) ∨
      (r.ret = -1 ∧ (∀ i < maxIter, cancel i = false) ∧
        r.output = hardDecisions r.vnLlr dec.code.k ∧ r.iterUsed = maxIter ∧
        ∃ i < dec.code.m, csrRowParity dec.csr
          (fun vn => (hardDecisions r.vnLlr dec.code.n).getD vn false) i = true) := by
  intro r
  obtain ⟨code, hinit, hcode, -⟩ := modcod_ldpcCode mc hmc
  rw [ldpcDecoderInit, hinit] at hdec
  obtain rfl := Option.some.inj hdec
  set dec : LdpcDecoder := { code := code, maxIter := maxIter, csr := buildCsr code } with hdec
  obtain ⟨s₀, hs₀⟩ : ∃ s₀ : LdpcState R, s₀ =
      { vnLlr := (List.range dec.code.n).map fun i => llr.getD i 0
        edgeMsg := List.replicate dec.csr.numEdges 0 } := ⟨_, rfl⟩
  have hend : LdpcEnd dec cancel 0 (ldpcLoop boxplus dec cancel dec.maxIter 0 s₀) :=
    ldpcLoop_end maxIter 0 s₀ (Nat.zero_add maxIter) (by omega)
  have hr : r = ldpcDecode boxplus dec cancel llr output := rfl
  clear_value r
  rw [ldpcDecode] at hr
  rw [← hs₀] at hr
  generalize ldpcLoop boxplus dec cancel dec.maxIter 0 s₀ = e at hend hr
  subst hr
  cases hend with
  | converged hlow hhigh hquiet hconv =>
    exact Or.inl ⟨rfl, hardDecisions_eq_encode hcode rfl hconv, hlow, hhigh,
      fun i hi => hquiet i (Nat.zero_le i) hi⟩
  | cancelled hlow hhigh hquiet hcancel =>
    exact Or.inr (Or.inl ⟨rfl, hcancel, rfl, hhigh, fun i hi => hquiet i (Nat.zero_le i) hi⟩)
  | @exhausted s hquiet hconv =>
    have hrow : ∃ i < code.m, csrRowParity dec.csr s.neg i = true := by
      by_contra hall
      push Not at hall
      have hpass : ldpcConverged dec.csr dec.code.m s = true :=
        (ldpcConverged_iff s).mpr fun i hi => Bool.eq_false_iff.mpr (hall i hi)
      rw [hconv] at hpass
      exact Bool.false_ne_true hpass
    obtain ⟨i, hi, hparity⟩ := hrow
    refine Or.inr (Or.inr ⟨rfl, fun i hi => hquiet i (Nat.zero_le i) hi, rfl, rfl, i, hi, ?_⟩)
    rw [← hparity]
    exact hcode.csrRowParity_congr (fun vn hvn => hardDecisions_getD hvn) hi

end

/-- The word of a message of ones in the spread short frame, received without errors. -/
theorem ldpcDecode_exits_ones :
    ∃ dec, ldpcDecoderInit vlsnrModcodTable[4] 200 = some dec ∧
      let c := ldpcEncode dec.code (List.replicate dec.code.k true)
      let r := ldpcDecode (boxplus fun _ => (0 : ℚ)) dec (fun _ => false)
        (c.map fun b => if b then -1 else 1) []
      r.output = List.replicate dec.code.k true ∧ hardDecisions r.vnLlr dec.code.n = c ∧
        1 ≤ r.iterUsed ∧ r.iterUsed ≤ 200 := by
  have hmc : vlsnrModcodTable[4] ∈ vlsnrModcodTable := List.getElem_mem _
  obtain ⟨code, hinit, hcode, -⟩ := modcod_ldpcCode vlsnrModcodTable[4] hmc
  have hdec : ldpcDecoderInit vlsnrModcodTable[4] 200
      = some { code := code, maxIter := 200, csr := buildCsr code } := by
    rw [ldpcDecoderInit, hinit]
    rfl
  refine ⟨_, hdec, ?_⟩
  intro c r
  have hinfo : (List.replicate code.k true).length = code.k := List.length_replicate
  have hlen : c.length = code.n := ldpcEncode_length hcode hinfo
  have htake : c.take code.k = List.replicate code.k true := ldpcEncode_take hinfo
  have hknows : ∀ vn < code.n, Knows (c.getD vn false)
      ((c.map fun b => if b then (-1 : ℚ) else 1).getD vn 0) := by
    intro vn hvn
    have hvn' : vn < c.length := hlen.symm ▸ hvn
    rw [List.getD_eq_getElem _ _ hvn', List.getD_eq_getElem _ _ (by rwa [List.length_map]),
      List.getElem_map, knows_iff]
    split
    · exact neg_one_lt_zero
    · exact one_pos
  have hn : code.n = code.k + code.m := by rw [hcode.m_eq, hcode.n_eq]
  have hbox : ∀ a b : ℚ, SignType.sign (boxplus (fun _ => 0) a b)
      = SignType.sign a * SignType.sign b :=
    sign_boxplus fun x y _ hxy => by rw [sub_zero]; exact half_pos (sub_pos.mpr hxy)
  -- the first iteration converges
  obtain ⟨vnLlr, hr⟩ : ∃ vnLlr,
      r = { ret := 0, output := c.take code.k, iterUsed := 1, vnLlr := vnLlr } :=
    ldpcDecode_of_signs hcode (.of_sign hbox 3) (fun r hr => modcod_rowWeight hmc hinit hr) rfl rfl
      (show 1 ≤ 200 by decide) rfl hlen ((hcode.checksSatisfied_iff hlen).mpr (by rw [htake]))
      (fun vn hvn => (hknows vn hvn).agrees) (fun vn _ => .inr (abs_nonneg _))
      (fun vn hvn => hknows vn (by omega)) (fun r hr => .inl (hknows _ (by omega))) []
  have hret : r.ret = 0 := by rw [hr]
  have hout : r.output = List.replicate code.k true := by rw [hr, htake]
  rcases ldpcDecode_exits hmc (by decide) hdec (boxplus fun _ => (0 : ℚ)) (fun _ => false)
    (c.map fun b => if b then -1 else 1) [] with ⟨-, hhard, hlow, hhigh, -⟩ | ⟨hfails, -⟩ | ⟨hfails, -⟩
  · exact ⟨hout, hhard.trans (congrArg (ldpcEncode code) hout), hlow, hhigh⟩
  · exact absurd (hret.symm.trans hfails) (by decide)
  · exact absurd (hret.symm.trans hfails) (by decide)

end OpenVlsnr
