import OpenVlsnr.BchCode
import OpenVlsnr.BoxplusTable

/-!
# Forward error correction, end to end

The bits a modulator sends for a BBFRAME (`dvbs2x_modulate_bbframe_symbols_ex`, up to the
mapper) and the way from log-likelihood ratios back to the BBFRAME
(`dvbs2x_demodulate_bbframe_symbols_ex`, from the demapper on).

Both sides walk over the parity bits with a counter of punctured positions.  `PunctureInv`
says what the two walks have in common after any number of positions: the counters agree, and
every position is either punctured and given a zero, or read from where it was written.
-/

namespace OpenVlsnr

/-! ### The transmitter -/

/-- `ldpc_info`: the shortening zeros, then the BCH codeword. -/
def ldpcInfoWord (mc : Modcod) (bchOut : List Bool) : List Bool :=
  List.replicate mc.xs false ++ bchOut.take mc.nBch

/-- The puncturing test of both loops over the parity bits. -/
def punctureTest (mc : Modcod) (pIdx i : ℕ) : Prop :=
  mc.xp > 0 ∧ pIdx < mc.xp ∧ i = pIdx * mc.pPeriod

instance (mc : Modcod) (pIdx i : ℕ) : Decidable (punctureTest mc pIdx i) :=
  inferInstanceAs (Decidable (_ ∧ _ ∧ _))

/-- One parity bit: `p_idx` and the bits sent so far. -/
def punctureStep (mc : Modcod) (ldpcCw : List Bool) (s : ℕ × List Bool) (i : ℕ) :
    ℕ × List Bool :=
  if punctureTest mc s.1 i then (s.1 + 1, s.2)
  else (s.1, s.2 ++ [ldpcCw.getD (mc.kLdpc + i) false])

/-- `tx_bits`: a codeword without its shortened and punctured bits. -/
def txBits (mc : Modcod) (ldpcCw : List Bool) : List Bool :=
  ((List.range (mc.fecLen - mc.kLdpc)).foldl (punctureStep mc ldpcCw)
    (0, (List.range' mc.xs (mc.kLdpc - mc.xs)).map fun i => ldpcCw.getD i false)).2

/-- The coded bits of a BBFRAME. -/
def txCoded (mc : Modcod) (bchEnc : BchEncoder) (code : LdpcCode) (bbframe : List Bool) :
    List Bool :=
  txBits mc (ldpcEncode code (ldpcInfoWord mc (bchEncode bchEnc bbframe)))

/-! ### The receiver -/

/-- `dvbs2x_deinterleave`: no permutation for these modulations. -/
def deinterleave {R : Type*} (mc : Modcod) (llr : List R) : List R := llr.take (txCodedBits mc)

/-- The variables of the loop over the parity bits. -/
structure Expansion (R : Type*) where
  pIdx : ℕ
  dIdx : ℕ
  fullLlr : List R

section
variable {R : Type*} [Field R]

/-- One parity bit. -/
def expandStep (mc : Modcod) (deint : List R) (s : Expansion R) (i : ℕ) : Expansion R :=
  if punctureTest mc s.pIdx i then
    { s with fullLlr := s.fullLlr ++ [0], pIdx := s.pIdx + 1 }
  else { s with fullLlr := s.fullLlr ++ [deint.getD s.dIdx 0], dIdx := s.dIdx + 1 }

/-- `full_llr`: 40 for a shortened bit, 0 for a punctured one. -/
def expandLlr (mc : Modcod) (deint : List R) : Expansion R :=
  (List.range (mc.fecLen - mc.kLdpc)).foldl (expandStep mc deint)
    { pIdx := 0
      dIdx := mc.kLdpc - mc.xs
      fullLlr := List.replicate mc.xs 40 ++
        (List.range' mc.xs (mc.kLdpc - mc.xs)).map fun i => deint.getD (i - mc.xs) 0 }

end

/-- `bch_cw`: what follows the shortening zeros. -/
def bchWord (mc : Modcod) (ldpcOut : List Bool) : List Bool := (ldpcOut.drop mc.xs).take mc.nBch

/-! ### Puncturing -/

/-- The geometry of shortening and puncturing. -/
theorem modcod_puncture : ∀ mc ∈ vlsnrModcodTable,
    mc.kLdpc = mc.xs + mc.nBch ∧ 2 ≤ mc.pPeriod ∧
      (mc.xp - 1) * mc.pPeriod < mc.fecLen - mc.kLdpc ∧ mc.xp ≤ mc.fecLen - mc.kLdpc ∧
      mc.kLdpc < mc.fecLen := by
  decide

/-- The parity positions that are not sent. -/
def Punctured (mc : Modcod) (i : ℕ) : Prop := ∃ p < mc.xp, i = p * mc.pPeriod

/-- What `p_idx` has counted after `i` positions. -/
structure PunctureCount (mc : Modcod) (i pIdx : ℕ) : Prop where
  le : pIdx ≤ mc.xp
  passed : ∀ p < pIdx, p * mc.pPeriod < i
  ahead : pIdx < mc.xp → i ≤ pIdx * mc.pPeriod

/-- The test finds the punctured positions. -/
theorem PunctureCount.test_iff {mc : Modcod} (hperiod : 2 ≤ mc.pPeriod) {i pIdx : ℕ}
    (h : PunctureCount mc i pIdx) : punctureTest mc pIdx i ↔ Punctured mc i := by
  constructor
  · rintro ⟨-, hlt, heq⟩
    exact ⟨pIdx, hlt, heq⟩
  · rintro ⟨p, hp, rfl⟩
    have hge : pIdx ≤ p := by
      by_contra hlt
      exact lt_irrefl _ (h.passed p (by omega))
    have hle : p ≤ pIdx := Nat.le_of_mul_le_mul_right (h.ahead (by omega)) (by omega)
    have heq : p = pIdx := le_antisymm hle hge
    subst heq
    exact ⟨by omega, hp, rfl⟩

theorem PunctureCount.step {mc : Modcod} (hperiod : 2 ≤ mc.pPeriod) {i pIdx : ℕ}
    (h : PunctureCount mc i pIdx) :
    PunctureCount mc (i + 1) (if punctureTest mc pIdx i then pIdx + 1 else pIdx) := by
  split
  · rename_i htest
    obtain ⟨-, hlt, heq⟩ := htest
    refine ⟨hlt, fun p hp => ?_, fun _ => ?_⟩
    · rcases Nat.lt_succ_iff_lt_or_eq.mp hp with hlt' | rfl
      · exact (h.passed p hlt').trans (Nat.lt_succ_self i)
      · omega
    · rw [Nat.succ_mul]
      omega
  · rename_i htest
    refine ⟨h.le, fun p hp => (h.passed p hp).trans (Nat.lt_succ_self i), fun hlt => ?_⟩
    have hne : i ≠ pIdx * mc.pPeriod := fun heq => htest ⟨by omega, hlt, heq⟩
    have := h.ahead hlt
    omega

/-- Neighbouring parity bits are not both missing. -/
theorem not_punctured_pred {mc : Modcod} (hperiod : 2 ≤ mc.pPeriod) {r : ℕ}
    (hr : Punctured mc (r + 1)) : ¬ Punctured mc r := by
  rintro ⟨p, -, rfl⟩
  obtain ⟨p', -, heq⟩ := hr
  have hdvd : mc.pPeriod ∣ p * mc.pPeriod + 1 := heq ▸ Nat.dvd_mul_left _ _
  have hone : mc.pPeriod ∣ 1 := (Nat.dvd_add_right (Nat.dvd_mul_left _ _)).mp hdvd
  have := Nat.le_of_dvd Nat.one_pos hone
  omega

/-! ### The two walks together -/

section
variable {R : Type*} [Field R]

/-- After `i` parity positions of the codeword `cw`: the sender has `(pIdx, tx)`, the receiver
`s`. -/
structure PunctureInv (mc : Modcod) (cw : List Bool) (deint : List R) (i : ℕ)
    (t : ℕ × List Bool) (s : Expansion R) : Prop where
  count : PunctureCount mc i t.1
  pIdx_eq : s.pIdx = t.1
  dIdx_eq : s.dIdx = t.2.length
  total : t.1 + t.2.length = mc.kLdpc - mc.xs + i
  length_eq : s.fullLlr.length = mc.kLdpc + i
  shortened : ∀ vn < mc.xs, s.fullLlr.getD vn 0 = 40
  info : ∀ vn, mc.xs ≤ vn → vn < mc.kLdpc → vn - mc.xs < t.2.length ∧
    t.2.getD (vn - mc.xs) false = cw.getD vn false ∧
      s.fullLlr.getD vn 0 = deint.getD (vn - mc.xs) 0
  parity : ∀ r < i, (Punctured mc r ∧ s.fullLlr.getD (mc.kLdpc + r) 0 = 0) ∨
    (¬ Punctured mc r ∧ ∃ d < t.2.length, t.2.getD d false = cw.getD (mc.kLdpc + r) false ∧
      s.fullLlr.getD (mc.kLdpc + r) 0 = deint.getD d 0)

/-- Before the first parity bit. -/
theorem PunctureInv.init (mc : Modcod) (hxs : mc.xs ≤ mc.kLdpc) (cw : List Bool)
    (deint : List R) :
    PunctureInv mc cw deint 0
      (0, (List.range' mc.xs (mc.kLdpc - mc.xs)).map fun i => cw.getD i false)
      { pIdx := 0
        dIdx := mc.kLdpc - mc.xs
        fullLlr := List.replicate mc.xs 40 ++
          (List.range' mc.xs (mc.kLdpc - mc.xs)).map fun i => deint.getD (i - mc.xs) 0 } where
  count := ⟨Nat.zero_le _, fun p hp => absurd hp (Nat.not_lt_zero p), fun _ => Nat.zero_le _⟩
  pIdx_eq := rfl
  dIdx_eq := by simp
  total := by simp
  length_eq := by simp [hxs]
  shortened := by
    intro vn hvn
    rw [List.getD_append _ _ _ _ (by rw [List.length_replicate]; exact hvn)]
    simp [List.getD_eq_getElem?_getD, hvn]
  info := by
    intro vn hlow hhigh
    have hlt : vn - mc.xs < mc.kLdpc - mc.xs := by omega
    have hback : mc.xs + (vn - mc.xs) = vn := by omega
    refine ⟨by simp [hlt], ?_, ?_⟩
    · simp [List.getD_eq_getElem?_getD, hlt, hback]
    · rw [List.getD_eq_getElem?_getD, List.getElem?_append_right (by simp [hlow])]
      simp [List.getD_eq_getElem?_getD, hlt]
  parity := by
    intro r hr
    exact absurd hr (Nat.not_lt_zero r)

/-- Both sides one parity position further: `sent` is behind what was transmitted, and `x` behind
the expanded values.  Only the new position is to be looked at. -/
theorem PunctureInv.extend {mc : Modcod} (hxs : mc.xs ≤ mc.kLdpc) {cw : List Bool}
    {deint : List R} {i : ℕ} {t t' : ℕ × List Bool} {s s' : Expansion R}
    (h : PunctureInv mc cw deint i t s) {sent : List Bool} {x : R} (ht : t'.2 = t.2 ++ sent)
    (hs : s'.fullLlr = s.fullLlr ++ [x]) (hcount : PunctureCount mc (i + 1) t'.1)
    (hpIdx : s'.pIdx = t'.1) (hdIdx : s'.dIdx = t'.2.length)
    (htotal : t'.1 + t'.2.length = mc.kLdpc - mc.xs + (i + 1))
    (hnew : (Punctured mc i ∧ x = 0) ∨ (¬ Punctured mc i ∧ ∃ d < t'.2.length,
      t'.2.getD d false = cw.getD (mc.kLdpc + i) false ∧ x = deint.getD d 0)) :
    PunctureInv mc cw deint (i + 1) t' s' := by
  have hold : ∀ j < mc.kLdpc + i, s'.fullLlr.getD j 0 = s.fullLlr.getD j 0 := by
    intro j hj
    rw [hs]
    exact List.getD_append _ _ _ _ (by rw [h.length_eq]; exact hj)
  have hlast : s'.fullLlr.getD (mc.kLdpc + i) 0 = x := by
    rw [hs]
    exact getD_concat h.length_eq
  have hkept : ∀ d < t.2.length, d < t'.2.length ∧ t'.2.getD d false = t.2.getD d false := by
    intro d hd
    rw [ht, List.length_append]
    exact ⟨by omega, List.getD_append _ _ _ _ hd⟩
  refine ⟨hcount, hpIdx, hdIdx, htotal, ?_, ?_, ?_, ?_⟩
  · rw [hs, List.length_append, h.length_eq, List.length_singleton, Nat.add_assoc]
  · intro vn hvn
    rw [hold vn (by omega)]
    exact h.shortened vn hvn
  · intro vn hlow hhigh
    obtain ⟨hd, hbit, hllr⟩ := h.info vn hlow hhigh
    obtain ⟨hd', hbit'⟩ := hkept _ hd
    rw [hold vn (by omega), hbit']
    exact ⟨hd', hbit, hllr⟩
  · intro r hr
    rcases Nat.lt_succ_iff_lt_or_eq.mp hr with hlt | rfl
    · rw [hold _ (by omega)]
      rcases h.parity r hlt with hpunct | ⟨hnot, d, hd, hbit, hllr⟩
      · exact Or.inl hpunct
      · obtain ⟨hd', hbit'⟩ := hkept d hd
        exact Or.inr ⟨hnot, d, hd', hbit'.trans hbit, hllr⟩
    · rw [hlast]
      exact hnew

/-- **One parity bit on both sides.** -/
theorem PunctureInv.step {mc : Modcod} (hperiod : 2 ≤ mc.pPeriod) (hxs : mc.xs ≤ mc.kLdpc)
    {cw : List Bool} {deint : List R} {i : ℕ} {t : ℕ × List Bool} {s : Expansion R}
    (h : PunctureInv mc cw deint i t s) :
    PunctureInv mc cw deint (i + 1) (punctureStep mc cw t i) (expandStep mc deint s i) := by
  have hcount := h.count.step hperiod
  have htest := h.count.test_iff hperiod
  have htotal := h.total
  rw [punctureStep, expandStep, h.pIdx_eq]
  by_cases hp : punctureTest mc t.1 i
  · rw [if_pos hp] at hcount ⊢
    rw [if_pos hp]
    refine h.extend hxs (List.append_nil t.2).symm rfl hcount rfl h.dIdx_eq ?_
      (Or.inl ⟨htest.mp hp, rfl⟩)
    dsimp only
    omega
  · rw [if_neg hp] at hcount ⊢
    rw [if_neg hp]
    have hlen : (t.2 ++ [cw.getD (mc.kLdpc + i) false]).length = t.2.length + 1 := by
      rw [List.length_append, List.length_singleton]
    refine h.extend hxs rfl rfl hcount rfl ?_ ?_ (Or.inr ⟨fun hpunct => hp (htest.mpr hpunct),
      t.2.length, by rw [hlen]; omega, getD_concat rfl, by rw [h.dIdx_eq]⟩)
    · show s.dIdx + 1 = (t.2 ++ [_]).length
      rw [hlen, h.dIdx_eq]
    · show t.1 + (t.2 ++ [_]).length = _
      rw [hlen]
      omega

/-- Both walks over all parity bits. -/
theorem PunctureInv.run {mc : Modcod} (hperiod : 2 ≤ mc.pPeriod) (hxs : mc.xs ≤ mc.kLdpc)
    {cw : List Bool} {deint : List R} {t : ℕ × List Bool} {s : Expansion R}
    (h : PunctureInv mc cw deint 0 t s) (n : ℕ) :
    PunctureInv mc cw deint n ((List.range n).foldl (punctureStep mc cw) t)
      ((List.range n).foldl (expandStep mc deint) s) := by
  induction n with
  | zero => exact h
  | succ n ih =>
    rw [List.range_succ, List.foldl_append, List.foldl_append]
    exact ih.step hperiod hxs

/-- **The expansion undoes shortening and puncturing.** -/
theorem expandLlr_spec {mc : Modcod} (hmc : mc ∈ vlsnrModcodTable) (cw : List Bool)
    (deint : List R) :
    ∃ pIdx, PunctureInv mc cw deint (mc.fecLen - mc.kLdpc) (pIdx, txBits mc cw)
        (expandLlr mc deint) ∧
      (txBits mc cw).length = txCodedBits mc := by
  obtain ⟨hk, hperiod, hlast, hxp, hlt⟩ := modcod_puncture mc hmc
  have hrun := (PunctureInv.init mc (by omega) cw deint).run hperiod (by omega)
    (mc.fecLen - mc.kLdpc)
  refine ⟨_, hrun, ?_⟩
  have hcount := hrun.count
  have htotal := hrun.total
  -- every punctured position lies below the end of the parity bits
  have hall : ∀ p, PunctureCount mc (mc.fecLen - mc.kLdpc) p → p = mc.xp := by
    intro p hp
    by_contra hne
    have hle := hp.le
    have hahead := hp.ahead (by omega)
    have hmono : p * mc.pPeriod ≤ (mc.xp - 1) * mc.pPeriod := Nat.mul_le_mul_right _ (by omega)
    omega
  rw [hall _ hcount] at htotal
  rw [txBits, txCodedBits]
  omega

end

/-! ### The chain -/

theorem bchWord_ldpcInfoWord {mc : Modcod} {w : List Bool} (hw : w.length = mc.nBch) :
    bchWord mc (ldpcInfoWord mc w) = w := by
  rw [bchWord, ldpcInfoWord, List.drop_left' List.length_replicate, ← hw, List.take_length,
    List.take_length]

theorem ldpcInfoWord_getD_lt (mc : Modcod) (w : List Bool) {vn : ℕ} (hvn : vn < mc.xs) :
    (ldpcInfoWord mc w).getD vn false = false := by
  rw [ldpcInfoWord, List.getD_append _ _ _ _ (by rw [List.length_replicate]; exact hvn)]
  simp [List.getD_eq_getElem?_getD, hvn]

section
variable {R : Type*} [Field R] [LinearOrder R] [IsStrictOrderedRing R]

open SignType

/-- An LLR whose sign tells the bit. -/
def Tells (b : Bool) (x : R) : Prop := if b then x < 0 else 0 < x

omit [IsStrictOrderedRing R] in
theorem knows_of_tells {b : Bool} {x : R} (h : Tells b x) : Knows b x := knows_iff.mpr h

/-- LLRs without errors, expanded, are beliefs in the codeword that was sent. -/
theorem expandLlr_beliefs {mc : Modcod} (hmc : mc ∈ vlsnrModcodTable) {cw : List Bool}
    (hshort : ∀ vn < mc.xs, cw.getD vn false = false) {llr : List R}
    (hllr : ∀ i < txCodedBits mc, Tells ((txBits mc cw).getD i false) (llr.getD i 0)) :
    (expandLlr mc (deinterleave mc llr)).dIdx = txCodedBits mc ∧
      (expandLlr mc (deinterleave mc llr)).fullLlr.length = mc.fecLen ∧
      (∀ vn < mc.kLdpc, Knows (cw.getD vn false)
        ((expandLlr mc (deinterleave mc llr)).fullLlr.getD vn 0)) ∧
      ∀ r < mc.fecLen - mc.kLdpc,
        (Punctured mc r ∧
          (expandLlr mc (deinterleave mc llr)).fullLlr.getD (mc.kLdpc + r) 0 = 0) ∨
        (¬ Punctured mc r ∧ Knows (cw.getD (mc.kLdpc + r) false)
          ((expandLlr mc (deinterleave mc llr)).fullLlr.getD (mc.kLdpc + r) 0)) := by
  obtain ⟨hk, hperiod, hlast, hxp, hlt⟩ := modcod_puncture mc hmc
  obtain ⟨pIdx, hinv, hlen⟩ := expandLlr_spec hmc cw (deinterleave mc llr)
  generalize expandLlr mc (deinterleave mc llr) = s at *
  have hread : ∀ d < txCodedBits mc, (deinterleave mc llr).getD d 0 = llr.getD d 0 := by
    intro d hd
    rw [deinterleave, List.getD_eq_getElem?_getD, List.getElem?_take_of_lt hd,
      ← List.getD_eq_getElem?_getD]
  refine ⟨by rw [hinv.dIdx_eq, hlen], by rw [hinv.length_eq]; omega, fun vn hvn => ?_,
    fun r hr => ?_⟩
  · by_cases hvs : vn < mc.xs
    · rw [hshort vn hvs, hinv.shortened vn hvs]
      exact knows_of_tells (show (0 : R) < 40 by norm_num)
    · obtain ⟨hd, hbit, hval⟩ := hinv.info vn (by omega) hvn
      dsimp only at hd hbit
      rw [hlen] at hd
      rw [hval, hread _ hd, ← hbit]
      exact knows_of_tells (hllr _ hd)
  · rcases hinv.parity r hr with hpunct | ⟨hnot, d, hd, hbit, hval⟩
    · exact Or.inl hpunct
    · dsimp only at hd hbit
      rw [hlen] at hd
      refine Or.inr ⟨hnot, ?_⟩
      rw [hval, hread _ hd, ← hbit]
      exact knows_of_tells (hllr _ hd)

omit [IsStrictOrderedRing R] in
/-- The expansion adds nothing close to zero. -/
theorem expandLlr_deep {mc : Modcod} (hmc : mc ∈ vlsnrModcodTable) {level : ℕ → R}
    (hlevel : level 0 ≤ |40|) {llr : List R}
    (hllr : ∀ i < txCodedBits mc, Deep level 0 (llr.getD i 0)) {vn : ℕ} (hvn : vn < mc.fecLen) :
    Deep level 0 ((expandLlr mc (deinterleave mc llr)).fullLlr.getD vn 0) := by
  obtain ⟨hk, hperiod, hlast, hxp, hlt⟩ := modcod_puncture mc hmc
  obtain ⟨pIdx, hinv, hlen⟩ := expandLlr_spec hmc [] (deinterleave mc llr)
  generalize expandLlr mc (deinterleave mc llr) = s at *
  have hread : ∀ d < (txBits mc []).length, Deep level 0 ((deinterleave mc llr).getD d 0) := by
    intro d hd
    rw [hlen] at hd
    rw [deinterleave, getD_take hd]
    exact hllr d hd
  by_cases hvs : vn < mc.xs
  · rw [hinv.shortened vn hvs]
    exact .inr hlevel
  · by_cases hvk : vn < mc.kLdpc
    · obtain ⟨hd, -, hval⟩ := hinv.info vn (by omega) hvk
      rw [hval]
      exact hread _ hd
    · obtain ⟨r, rfl⟩ : ∃ r, vn = mc.kLdpc + r := ⟨vn - mc.kLdpc, by omega⟩
      rcases hinv.parity r (by omega) with ⟨-, hzero⟩ | ⟨-, d, hd, -, hval⟩
      · rw [hzero]
        exact deep_zero
      · rw [hval]
        exact hread _ hd

/-- LLRs without errors decode to the information word in the first iteration. -/
theorem ldpcDecode_expanded {mc : Modcod} (hmc : mc ∈ vlsnrModcodTable) {code : LdpcCode}
    (hinit : ldpcCodeInit mc = some code) (hcode : code.WellFormed) {boxplus : R → R → R}
    {level : ℕ → R} (hrule : CheckRule boxplus level 3) (hlevel : level 0 ≤ |40|) {maxIter : ℕ}
    (hiter : 1 ≤ maxIter) {cw : List Bool} (hlen : cw.length = code.n)
    (hchecks : ChecksSatisfied code cw) (hshort : ∀ vn < mc.xs, cw.getD vn false = false)
    {llr : List R}
    (hllr : ∀ i < txCodedBits mc, Tells ((txBits mc cw).getD i false) (llr.getD i 0))
    (hdeep : ∀ i < txCodedBits mc, Deep level 0 (llr.getD i 0)) (output : List Bool) :
    (expandLlr mc (deinterleave mc llr)).dIdx = txCodedBits mc ∧
      ∃ vnLlr, ldpcDecode boxplus { code := code, maxIter := maxIter, csr := buildCsr code }
          (fun _ => false) (expandLlr mc (deinterleave mc llr)).fullLlr output
        = { ret := 0, output := cw.take code.k, iterUsed := 1, vnLlr := vnLlr } := by
  obtain ⟨hk, hperiod, hlast, hxp, hlt⟩ := modcod_puncture mc hmc
  have hn : code.n = mc.fecLen ∧ code.k = mc.kLdpc := by
    obtain ⟨r, -, hr⟩ := Option.map_eq_some_iff.mp hinit
    rw [← hr]
    exact ⟨rfl, rfl⟩
  have hm : code.m = mc.fecLen - mc.kLdpc := by rw [LdpcCode.m, hn.1, hn.2]
  obtain ⟨hread, -, hinfo, hparity⟩ := expandLlr_beliefs hmc hshort hllr
  have hfull := fun vn (hvn : vn < mc.fecLen) => expandLlr_deep hmc hlevel hdeep hvn
  generalize expandLlr mc (deinterleave mc llr) = s at *
  refine ⟨hread, ?_⟩
  apply ldpcDecode_of_signs hcode hrule (fun r hr => modcod_rowWeight hmc hinit hr) rfl rfl hiter
    rfl hlen hchecks
  · intro vn hvn
    by_cases hlow : vn < mc.kLdpc
    · exact (hinfo vn hlow).agrees
    · obtain ⟨r, rfl⟩ : ∃ r, vn = mc.kLdpc + r := ⟨vn - mc.kLdpc, by omega⟩
      rcases hparity r (by omega) with ⟨-, hzero⟩ | ⟨-, hknown⟩
      · rw [hzero]
        exact agrees_zero _
      · exact hknown.agrees
  · intro vn hvn
    exact hfull vn (by omega)
  · intro vn hvn
    exact hinfo vn (by omega)
  · intro r hr
    rw [hn.2]
    rcases hparity r (by omega) with ⟨hpunct, -⟩ | ⟨-, hknown⟩
    · -- a punctured bit is the first one, or the one before it was sent
      cases r with
      | zero => exact Or.inr (Or.inl rfl)
      | succ r =>
        rcases hparity r (by omega) with ⟨hpunct', -⟩ | ⟨-, hknown⟩
        · exact absurd hpunct' (not_punctured_pred hperiod hpunct)
        · exact Or.inr (Or.inr hknown)
    · exact Or.inl hknown

/-- **Transmit and receive FEC chains are inverse without bit errors.** -/
theorem fecChain_inverse (mc : Modcod) (hmc : mc ∈ vlsnrModcodTable) (u : List Bool)
    (hu : u.length = mc.kBch) (boxplus : R → R → R)
    (hbox : ∀ a b, sign (boxplus a b) = sign a * sign b) (maxIter : ℕ) (hiter : 1 ≤ maxIter) :
    ∃ enc code dec, bchEncoderInit mc = some (0, enc) ∧ ldpcCodeInit mc = some code ∧
      ldpcDecoderInit mc maxIter = some dec ∧
      (txCoded mc enc code u).length = txCodedBits mc ∧
      ∀ llr : List R, llr.length = txCodedBits mc →
        (∀ i < txCodedBits mc,
          if (txCoded mc enc code u).getD i false then llr.getD i 0 < 0 else 0 < llr.getD i 0) →
        ∀ output,
          let expansion := expandLlr mc (deinterleave mc llr)
          let res := ldpcDecode boxplus dec (fun _ => false) expansion.fullLlr output
          let bch := bchDecode (bchDecoderInit mc) (bchWord mc res.output)
          expansion.dIdx = txCodedBits mc ∧ res.ret = 0 ∧ res.iterUsed = 1 ∧ bch.1 = 0 ∧
            bch.2.take mc.kBch = u := by
  classical
  obtain ⟨code, hinit, hcode, -⟩ := modcod_ldpcCode mc hmc
  obtain ⟨enc, α, hs⟩ := bchSetup hmc
  obtain ⟨hbchCode, hbchTake⟩ := hs.bchEncode_isCodeword hmc hu
  obtain ⟨hk, -, -, -, -⟩ := modcod_puncture mc hmc
  have hkLdpc : code.k = mc.kLdpc := by
    obtain ⟨r, -, hr⟩ := Option.map_eq_some_iff.mp hinit
    rw [← hr]
  have hbchLen : (bchEncode enc u).length = mc.nBch := by
    rw [hbchCode.1, hs.n_eq]
  have hinfoLen : (ldpcInfoWord mc (bchEncode enc u)).length = code.k := by
    rw [ldpcInfoWord, List.length_append, List.length_replicate, List.length_take, hbchLen,
      min_self, hkLdpc, hk]
  have hcwLen := ldpcEncode_length hcode hinfoLen
  have htake : (ldpcEncode code (ldpcInfoWord mc (bchEncode enc u))).take code.k
      = ldpcInfoWord mc (bchEncode enc u) := ldpcEncode_take hinfoLen
  have hshort : ∀ vn < mc.xs,
      (ldpcEncode code (ldpcInfoWord mc (bchEncode enc u))).getD vn false = false := by
    intro vn hvn
    rw [← getD_take (show vn < code.k by omega), htake, ldpcInfoWord_getD_lt mc _ hvn]
  have hbch : bchDecode (bchDecoderInit mc) (bchEncode enc u) = (0, bchEncode enc u) := by
    have h := hs.bchDecode_flipBits hbchCode (E := ∅) (by simp) (by simp)
    rw [flipBits_empty] at h
    exact h
  obtain ⟨pIdx, -, htxLen⟩ := expandLlr_spec (R := R) hmc
    (ldpcEncode code (ldpcInfoWord mc (bchEncode enc u))) []
  refine ⟨enc, code, { code := code, maxIter := maxIter, csr := buildCsr code }, hs.init, hinit,
    by rw [ldpcDecoderInit, hinit]; rfl, htxLen, fun llr _ hllr output => ?_⟩
  obtain ⟨hread, vnLlr, hres⟩ := ldpcDecode_expanded hmc hinit hcode (.of_sign hbox 3)
    (abs_nonneg _) hiter hcwLen ((hcode.checksSatisfied_iff hcwLen).mpr (by rw [htake])) hshort hllr
    (fun i _ => .inr (abs_nonneg _)) output
  dsimp only
  rw [hres]
  dsimp only
  rw [htake, bchWord_ldpcInfoWord hbchLen, hbch]
  exact ⟨hread, rfl, rfl, rfl, hbchTake⟩

end

/-- A message of ones in the spread short frame, decoded with the sum-product rule. -/
theorem fecChain_inverse_ones :
    ∃ enc code dec, bchEncoderInit vlsnrModcodTable[4] = some (0, enc) ∧
      ldpcCodeInit vlsnrModcodTable[4] = some code ∧
      ldpcDecoderInit vlsnrModcodTable[4] 200 = some dec ∧
      (txCoded vlsnrModcodTable[4] enc code (List.replicate 2512 true)).length
        = txCodedBits vlsnrModcodTable[4] ∧
      ∀ llr : List ℝ, llr.length = txCodedBits vlsnrModcodTable[4] →
        (∀ i < txCodedBits vlsnrModcodTable[4],
          if (txCoded vlsnrModcodTable[4] enc code (List.replicate 2512 true)).getD i false
          then llr.getD i 0 < 0 else 0 < llr.getD i 0) →
        ∀ output,
          let expansion := expandLlr vlsnrModcodTable[4] (deinterleave vlsnrModcodTable[4] llr)
          let res := ldpcDecode (boxplus log1pexp) dec (fun _ => false) expansion.fullLlr output
          let bch := bchDecode (bchDecoderInit vlsnrModcodTable[4])
            (bchWord vlsnrModcodTable[4] res.output)
          expansion.dIdx = txCodedBits vlsnrModcodTable[4] ∧ res.ret = 0 ∧ res.iterUsed = 1 ∧
            bch.1 = 0 ∧ bch.2.take 2512 = List.replicate 2512 true :=
  fecChain_inverse vlsnrModcodTable[4] (List.getElem_mem _) (List.replicate 2512 true)
    List.length_replicate (boxplus log1pexp) sign_boxplus_log1pexp 200 (by decide)

end OpenVlsnr
