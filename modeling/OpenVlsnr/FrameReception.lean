import OpenVlsnr.HeaderPeak
import OpenVlsnr.ResidualTrack

/-!
# A frame without a carrier

What the receiver does between the header search and the decoder, on a frame behind a gain and a
phase (`HeaderAt`).  A factor on all symbols goes through the descrambler, the pilot extractor and
the demapper (`descrambleField_map`, `pilotExtract_map`, `plLlr_map`); the level comes out as a gain
(`HeaderAt.normalized`), no frequency is found (`HeaderAt.coarse`), and the residual tracker takes
the phase off (`HeaderAt.tracked`).  The LLRs then tell the bits of the frame (`HeaderAt.llr`).
-/

namespace OpenVlsnr

open Finset Phasors

/-! ### A factor on all symbols -/

section
variable {R : Type*} [Field R] (c : Cplx R)

theorem descrambleSymbol_mul (fourPhase : Bool) (rn : ℕ) (s : Cplx R) :
    descrambleSymbol fourPhase rn (c * s) = c * descrambleSymbol fourPhase rn s := by
  have hneg : (⟨-(c * s).i, -(c * s).q⟩ : Cplx R) = c * ⟨-s.i, -s.q⟩ := by
    ext
    · simp
      ring
    · simp
      ring
  have hinv : rotInv (c * s) rn = c * rotInv s rn := by
    unfold rotInv
    split
    · ext
      · simp
      · simp
        ring
    · exact hneg
    · ext
      · simp
        ring
      · simp
        ring
    · rfl
  unfold descrambleSymbol
  cases fourPhase
  · simp only [Bool.false_eq_true, if_false]
    split
    · exact hneg
    · rfl
  · exact hinv

theorem scrambleLoop_map (isPilot : List Bool) (isQpsk : Bool) (n : ℕ) (scr : Scrambler)
    (symbols : List (Cplx R)) :
    (scrambleLoop descrambleSymbol isPilot isQpsk n scr (symbols.map (c * ·))).1
      = (scrambleLoop descrambleSymbol isPilot isQpsk n scr symbols).1.map (c * ·) := by
  induction symbols generalizing n scr with
  | nil => rfl
  | cons s rest ih =>
    rw [List.map_cons, scrambleLoop, scrambleLoop, List.map_cons]
    dsimp only
    rw [ih, descrambleSymbol_mul]

theorem descrambleField_map (scr : Scrambler) (symbols : List (Cplx R)) (isPilot : List Bool)
    (isQpsk : Bool) : (descrambleField scr (symbols.map (c * ·)) isPilot isQpsk).1
      = (descrambleField scr symbols isPilot isQpsk).1.map (c * ·) :=
  scrambleLoop_map c isPilot isQpsk 0 scr symbols

theorem map_mul_getD (symbols : List (Cplx R)) (n : ℕ) :
    (symbols.map (c * ·)).getD n 0 = c * symbols.getD n 0 := by
  have h := List.getD_map (l := symbols) (n := n) (d := 0) (c * ·)
  rwa [mul_zero] at h

theorem pilotExtractFrom_map (field : List (Cplx R)) (i : ℕ) (map : List Bool) :
    pilotExtractFrom (field.map (c * ·)) i map
      = ((pilotExtractFrom field i map).1.map (c * ·),
        (pilotExtractFrom field i map).2.map (c * ·)) := by
  induction map generalizing i with
  | nil => rfl
  | cons p map ih =>
    cases p with
    | true =>
      simp only [pilotExtractFrom]
      rw [ih, map_mul_getD, List.map_cons]
    | false =>
      simp only [pilotExtractFrom]
      rw [ih, map_mul_getD, List.map_cons]

theorem pilotExtract_map (field : List (Cplx R)) (lay : VlsnrLayout) :
    pilotExtract (field.map (c * ·)) lay
      = ((pilotExtract field lay).1.map (c * ·), (pilotExtract field lay).2.map (c * ·)) :=
  pilotExtractFrom_map c field 0 lay.isPilot

/-- A gain is a lower noise variance to the demapper. -/
theorem plLlr_map [LinearOrder R] (const : Sqrt2 R) (mc : Modcod) (symbols : List (Cplx R)) (g nv : R) :
    plLlr const mc (symbols.map ((⟨g, 0⟩ : Cplx R) * ·)) nv = plLlr const mc symbols (nv / g) := by
  have hread : ∀ n, (symbols.map ((⟨g, 0⟩ : Cplx R) * ·)).getD n 0
      = ⟨g * (symbols.getD n 0).i, g * (symbols.getD n 0).q⟩ := by
    intro n
    rw [map_mul_getD]
    ext
    · simp
    · simp
  have hbpsk : ∀ len, demodPi2bpsk const (symbols.map ((⟨g, 0⟩ : Cplx R) * ·)) len nv
      = demodPi2bpsk const symbols len (nv / g) := by
    intro len
    rw [demodPi2bpsk, demodPi2bpsk]
    refine List.map_congr_left fun n _ => ?_
    rw [hread, div_div_eq_mul_div]
    split
    · ring
    · ring
  have hqpsk : ∀ len, demodQpsk const (symbols.map ((⟨g, 0⟩ : Cplx R) * ·)) len nv
      = demodQpsk const symbols len (nv / g) := by
    intro len
    rw [demodQpsk, demodQpsk]
    simp only [hread, div_div_eq_mul_div]
    congr 1
    · funext n
      ring
    · funext n
      ring
  rw [plLlr, plLlr, List.length_map, hbpsk, hqpsk]

end

/-! ### Estimates on a frame -/

section
variable {R : Type*} [Field R] [LinearOrder R] (const : Sqrt2 R)

/-- `wh_ref + 2`: the pattern within the header that the receiver generates. -/
def whRef (mc : Modcod) : List (Cplx R) := (vlsnrHeaderGenerate const mc).drop 2

theorem whRef_getD {mc : Modcod} (hmc : mc ∈ vlsnrModcodTable) {n : ℕ} (hn : n < vlsnrWhLen) :
    (whRef const mc).getD n 0 = ((vlsnrReferences const).getD (mc.index - 1) []).getD n 0 := by
  have hwh : vlsnrWhLen = 896 := rfl
  have h := modFrame_header hmc 0 [] const hn
  rw [modFrame_getD hmc, if_neg (by omega), if_pos (by omega), show 92 + n - 90 = 2 + n by omega] at h
  rw [whRef, getD_drop, h]

end

variable {mc : Modcod} {goldIdx lead : ℕ} {bits : List Bool} {g φ : ℝ} {sym : List (Cplx ℝ)}

section
variable (h : HeaderAt mc goldIdx bits lead g φ sym)
include h

theorem HeaderAt.tone : HeaderTone sym (lead + 92) (whRef Sqrt2.exact mc) g φ 0 := by
  intro n hn
  have hwh : vlsnrWhLen = 896 := rfl
  have hlen := modFrameLen_ge mc
  obtain ⟨hlow, hhigh, -⟩ := modcod_headers mc h.modcod
  rw [headerProduct_eq, whRef_getD _ h.modcod hn, Nat.add_assoc, h.frame (92 + n) (by omega),
    modFrame_header h.modcod goldIdx bits _ hn, mul_assoc, mul_conj_self,
    reference_power (by omega) hn]
  exact (mul_one _).trans (by rw [mul_zero, mul_zero, add_zero])

/-- The level is the gain. -/
theorem HeaderAt.level :
    segmentMag SyncMath.exact sym (whRef Sqrt2.exact mc) syncSegLen (lead + 92)
      / ((vlsnrWhLen : ℕ) : ℝ) = g := by
  have hsame : ∀ n ∈ range vlsnrWhLen, windowPhasors sym (whRef Sqrt2.exact mc) (lead + 92) n
      = (phasor g φ).toComplex := by
    intro n hn
    have htone := h.tone n (mem_range.mp hn)
    rw [headerProduct_eq, mul_zero, mul_zero, add_zero] at htone
    rw [windowPhasors, htone]
  rw [segmentMag_eq, coherence_eq hsame, card_range, Cplx.norm_toComplex, phasor_power,
    Real.sqrt_sq h.gain.le, mul_div_cancel_left₀ _ (by norm_num)]

theorem HeaderAt.scaled {a : ℝ} (ha : 0 < a) :
    HeaderAt mc goldIdx bits lead (g * a) φ (sym.map fun s => ⟨s.i * a, s.q * a⟩) := by
  have hread : ∀ k, (sym.map fun s => (⟨s.i * a, s.q * a⟩ : Cplx ℝ)).getD k 0
      = phasor a 0 * sym.getD k 0 := by
    intro k
    have hmap : (fun s : Cplx ℝ => (⟨s.i * a, s.q * a⟩ : Cplx ℝ)) = (phasor a 0 * ·) := by
      funext s
      ext
      · simp [phasor, mul_comm]
      · simp [phasor, mul_comm]
    rw [hmap, map_mul_getD]
  refine ⟨h.modcod, mul_pos h.gain ha, fun k hk => ?_, fun k hk => ?_⟩
  · rw [hread, h.before k hk, mul_zero]
  · rw [hread, h.frame k hk, ← mul_assoc, phasor_mul, zero_add, mul_comm a]

/-- **The level is normalised** to a gain close to one. -/
theorem HeaderAt.normalized : ∃ g', 1 / 4 ≤ g' ∧ g' ≤ 4 ∧ HeaderAt mc goldIdx bits lead g' φ
    (normalizeInputLevel CarrierMath.exact sym (lead + 92) (whRef Sqrt2.exact mc)) := by
  have hlevel := h.level
  rw [normalizeInputLevel]
  rw [show CarrierMath.exact.toSyncMath = SyncMath.exact from rfl, hlevel]
  split
  · rename_i hlevel
    obtain ⟨hlow, hhigh⟩ := hlevel.resolve_left (not_le.mpr h.gain)
    exact ⟨g, hlow, hhigh, h⟩
  · have hone : g * (1 / g) = 1 := mul_one_div_cancel h.gain.ne'
    exact ⟨_, by rw [hone]; norm_num, by rw [hone]; norm_num, h.scaled (one_div_pos.mpr h.gain)⟩

/-- No noise is found. -/
theorem HeaderAt.noise : estimateNoiseVar sym (lead + 92) (whRef Sqrt2.exact mc) = 0 := by
  rw [estimateNoiseVar_tone h.tone]
  simp

omit h in
theorem esn0Db_zero : esn0Db CarrierMath.exact 0 = 120 := by
  have hlog : Real.logb 10 (1 / (2 * 0 + 1 / 10 ^ 12)) = 12 := by
    rw [mul_zero, zero_add, one_div_one_div]
    exact_mod_cast Real.logb_pow 10 10 12 |>.trans (by rw [Real.logb_self_eq_one (by norm_num)]; norm_num)
  rw [esn0Db]
  show 10 * Real.logb 10 (1 / (2 * 0 + 1 / 10 ^ 12)) = 120
  rw [hlog]
  norm_num

omit h in
theorem derotate_nothing (base span : ℕ) :
    derotate CarrierMath.exact sym base span 0 0 = sym := by
  refine list_ext_getD 0 (derotate_length _ _ _ _ _) fun k hk => ?_
  rw [derotate_length] at hk
  rw [derotate_getD _ _ _ _ _ hk]
  split
  · simp
  · rfl

/-- No frequency is found. -/
theorem HeaderAt.coarse (span : ℕ) : coarseFreqRecover CarrierMath.exact sym (lead + 92) span
    (whRef Sqrt2.exact mc) (esn0Db CarrierMath.exact 0) = sym := by
  rw [coarseFreqRecover_tone h.tone h.gain (by norm_num) (by norm_num) span
    (by rw [esn0Db_zero]; norm_num), derotate_nothing]

/-! ### The data field -/

/-- What the modulator scrambles. -/
noncomputable def plainField (mc : Modcod) (bits : List Bool) : List (Cplx ℝ) :=
  pilotInsert Sqrt2.exact (plSymbols Sqrt2.exact mc bits) (buildLayout mc)

/-- The data field behind the descrambler. -/
theorem HeaderAt.descrambled (hroom : lead + modFrameLen mc ≤ sym.length) :
    (descrambleField (scramblerSeek (scramblerReset (scramblerInit goldIdx)) vlsnrHdrLen)
      ((sym.drop (lead + 990)).take (buildLayout mc).fieldLen) (buildLayout mc).isPilot
      (mc.modulation = .qpsk)).1 = (plainField mc bits).map (phasor g φ * ·) := by
  have hlen := modFrameLen_eq h.modcod
  have hhead : plheaderLen + vlsnrHdrLen = 990 := rfl
  have hfield : (sym.drop (lead + 990)).take (buildLayout mc).fieldLen
      = ((scrambleField (scramblerSeek (scramblerReset (scramblerInit goldIdx)) vlsnrHdrLen)
        (plainField mc bits) (buildLayout mc).isPilot (mc.modulation = .qpsk)).1).map
          (phasor g φ * ·) := by
    have hscrambled := scrambledField_length Sqrt2.exact h.modcod goldIdx bits
    have hsame : ((sym.drop (lead + 990)).take (buildLayout mc).fieldLen).length
        = (buildLayout mc).fieldLen := by
      rw [List.length_take, List.length_drop]
      omega
    refine list_ext_getD 0 (by rw [hsame, List.length_map]; exact hscrambled.symm) fun k hk => ?_
    rw [hsame] at hk
    rw [getD_take hk, getD_drop, map_mul_getD, Nat.add_assoc, h.frame (990 + k) (by omega),
      modFrame_getD h.modcod, if_neg (by omega), if_neg (by omega), Nat.add_sub_cancel_left]
    rfl
  rw [hfield, descrambleField_map, descrambleField_scrambleField]

omit h in
theorem memcpyAt_getD {α : Type*} (x : α) {dst src : List α} {off : ℕ}
    (hroom : off + src.length ≤ dst.length) (k : ℕ) :
    (memcpyAt dst off src).getD k x
      = if off ≤ k ∧ k < off + src.length then src.getD (k - off) x else dst.getD k x := by
  have htake : (dst.take off).length = off := by
    rw [List.length_take]
    omega
  rw [memcpyAt, List.append_assoc]
  by_cases hbefore : k < off
  · rw [if_neg (by omega), List.getD_append _ _ _ _ (by omega), getD_take hbefore]
  · rw [List.getD_append_right _ _ _ _ (by omega), htake]
    by_cases hin : k < off + src.length
    · rw [if_pos (by omega), List.getD_append _ _ _ _ (by omega)]
    · rw [if_neg (by omega), List.getD_append_right _ _ _ _ (by omega), getD_drop,
        show off + src.length + (k - off - src.length) = k by omega]

theorem HeaderAt.plainField_length : (plainField mc bits).length = (buildLayout mc).fieldLen := by
  obtain ⟨-, -, hmap, -⟩ := modcod_layout mc h.modcod
  rw [plainField, pilotInsert, pilotInsertFrom_length, hmap]

/-- **The residual tracker** leaves the data field as it was sent, but for the gain. -/
theorem HeaderAt.tracked (hroom : lead + modFrameLen mc ≤ sym.length) {rounds : ℕ}
    (hrounds : 20 ≤ rounds) :
    ∃ out, residualCarrierTrack CarrierMath.exact Sqrt2.exact rounds
        (memcpyAt sym (lead + 990) ((plainField mc bits).map (phasor g φ * ·))) (lead + 92)
        (buildLayout mc) (whRef Sqrt2.exact mc) = some out ∧
      (out.drop (lead + 990)).take (buildLayout mc).fieldLen
        = (plainField mc bits).map ((⟨g, 0⟩ : Cplx ℝ) * ·) := by
  have hwh : vlsnrWhLen = 896 := rfl
  have hhead : plheaderLen + vlsnrHdrLen = 990 := rfl
  have hlen := modFrameLen_eq h.modcod
  have hplain := h.plainField_length
  obtain ⟨-, -, hmap, -⟩ := modcod_layout mc h.modcod
  set work := memcpyAt sym (lead + 990) ((plainField mc bits).map (phasor g φ * ·)) with hwork
  have hread : ∀ k, work.getD k 0
      = if lead + 990 ≤ k ∧ k < lead + 990 + (buildLayout mc).fieldLen then
          phasor g φ * (plainField mc bits).getD (k - (lead + 990)) 0
        else sym.getD k 0 := by
    intro k
    rw [hwork, memcpyAt_getD 0 (by rw [List.length_map]; omega), List.length_map, hplain,
      map_mul_getD]
  have hworkLen : work.length = sym.length := by
    rw [hwork, memcpyAt, List.length_append, List.length_append, List.length_take,
      List.length_drop, List.length_map]
    omega
  have htone : PilotTone work (lead + 92) (pilotBlocks (buildLayout mc)) (whRef Sqrt2.exact mc)
      g φ 0 := by
    refine ⟨fun n hn => ?_, fun b hb n hn => ?_⟩
    · have hsym := h.tone n hn
      rw [headerProduct_eq, mul_zero] at hsym
      rw [headerProduct_eq, hread, if_neg (by omega), hsym]
    · have hpilot := pilotBlocks_isPilot hb hn
      have hin : b.1 + n < (buildLayout mc).isPilot.length := by
        by_contra hout
        rw [List.getD_eq_default _ _ (not_lt.mp hout)] at hpilot
        exact Bool.false_ne_true hpilot
      rw [hread, if_pos (by omega),
        show lead + 92 + vlsnrWhLen + 2 + b.1 + n - (lead + 990) = b.1 + n by omega, plainField,
        pilotInsert, pilotInsertFrom_getD _ _ _ _ hin, if_pos hpilot, mul_zero, add_zero]
  obtain ⟨out, hout, houtLen, hsymbols⟩ := htone.residual h.gain (modcod_paced mc h.modcod)
    (by rw [abs_zero, mul_zero]; exact Real.pi_pos) hrounds
  refine ⟨out, hout, list_ext_getD 0 ?_ fun k hk => ?_⟩
  · rw [List.length_take, List.length_drop, List.length_map, hplain]
    omega
  · have hk' : k < (buildLayout mc).fieldLen := lt_of_lt_of_le hk (List.length_take_le _ _)
    have hsymbol := hsymbols (lead + 990 + k) (by omega)
    rw [if_pos (by omega)] at hsymbol
    obtain ⟨δ, hδ, hvalue⟩ := hsymbol
    have hzero : δ = 0 := by
      rw [abs_zero, mul_zero] at hδ
      exact abs_eq_zero.mp (le_antisymm hδ (abs_nonneg δ))
    have hturn : phasor g φ * phasor 1 (-φ) = ⟨g, 0⟩ := by
      rw [phasor_mul, mul_one, add_neg_cancel]
      ext
      · simp [phasor]
      · simp [phasor]
    rw [getD_take hk', getD_drop, hvalue, hread, if_pos (by omega), hzero, mul_zero, add_zero,
      zero_sub, Nat.add_sub_cancel_left, map_mul_getD, ← hturn]
    ring

end

end OpenVlsnr
