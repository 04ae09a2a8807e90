import OpenVlsnr.DemodHistory
import OpenVlsnr.FrameReception
import OpenVlsnr.GsFrame

/-!
# From the modulator to the demodulator

The stages of the receiver as the code runs them (`codeStages`), on a burst of the modulator behind
any gain, phase and carrier of up to an eighth of the symbol rate.  The carrier goes in the blind
stage (`preCorrect_tone`), the search finds the header where it is, in the acquisition window or
around a prediction (`headerSearch_at`), the demapper tells every bit, with LLRs that the box-plus
table can work with (`frameLlr_at`), and the decoders correct nothing (`frameFec_at`): the call
returns the BBFRAME that was sent (`loopback_bbframe`), and the user data in it
(`loopback_symbols`).
-/

namespace OpenVlsnr

open SignType

/-! ### The stages -/

/-- What the stages run on: the static tables of the library, whether they have been initialised or
not, and the matched filter and timing loop in front of the symbols.  `fuel` bounds the loops of
the transforms and `rounds` those of the unwrapping. -/
structure StageSetup where
  tables : SyncTables ℝ
  lut : BoxplusLut ℝ
  fuel : ℕ
  rounds : ℕ
  frontEnd : ℝ → ℕ → List (Cplx ℝ) → List (Cplx ℝ)
  reach : SyncReach Sqrt2.exact SyncMath.exact tables
  lutReach : LutReached lut
  fuel_le : 2 ^ 30 + 31 ≤ fuel
  rounds_le : 20 ≤ rounds

/-- The stages on exact numbers. -/
noncomputable def codeStages (s : StageSetup) : RxStages ℝ where
  const := Sqrt2.exact
  frontEnd := s.frontEnd
  derotate := fun f sym => derotate CarrierMath.exact sym 0 sym.length f 0
  coarseBlindCarrier := coarseBlindCarrier CarrierMath.exact
  headerSync := fun sym len preferredModcod =>
    ((vlsnrHeaderSyncMode Sqrt2.exact SyncMath.exact s.fuel s.tables sym len syncSegLen
      preferredModcod true).map Prod.snd).getD ⟨-1, 0, 1⟩
  normalizeInputLevel := fun mc whStart sym =>
    normalizeInputLevel CarrierMath.exact sym whStart (whRef Sqrt2.exact mc)
  estimateNoiseVar := fun mc whStart sym => estimateNoiseVar sym whStart (whRef Sqrt2.exact mc)
  esn0 := esn0Db CarrierMath.exact
  afcRaw := fun mc whStart sym => afcRaw CarrierMath.exact sym whStart (whRef Sqrt2.exact mc)
  coarseFreqRecover := fun mc whStart esn0 sym =>
    coarseFreqRecover CarrierMath.exact sym whStart (vlsnrWhLen + 2 + (buildLayout mc).fieldLen)
      (whRef Sqrt2.exact mc) esn0
  residualCarrierTrack := fun mc whStart sym =>
    (residualCarrierTrack CarrierMath.exact Sqrt2.exact s.rounds sym whStart (buildLayout mc)
      (whRef Sqrt2.exact mc)).getD sym
  ldpc := fun dec cancel llr => ldpcDecode (boxplus (lutLog1pexp s.lut)) dec cancel llr []
  bch := bchDecode
  cancelAt := none

/-! ### The carrier -/

/-- What the pre-correction leaves of a carrier. -/
def carrierLeft (demod : Demodulator ℝ) (f : ℝ) : ℝ :=
  if demod.state = .search then f else f - demod.afc.freqEst

theorem derotate_onCarrier (g φ f f₀ : ℝ) (x : List (Cplx ℝ)) :
    derotate CarrierMath.exact (onCarrier g φ f x) 0 (onCarrier g φ f x).length f₀ 0
      = onCarrier g φ (f - f₀) x := by
  refine list_ext_getD 0 (by rw [derotate_length, onCarrier_length, onCarrier_length]) fun k hk => ?_
  rw [derotate_length] at hk
  rw [derotate_getD _ _ _ _ _ hk, if_pos ⟨Nat.zero_le k, by omega⟩, onCarrier_getD, onCarrier_getD,
    mul_right_comm, phasor_mul, mul_one, Nat.sub_zero]
  congr 2
  ring

variable (s : StageSetup)

/-- Symbols that the blind stage can work with. -/
structure OnAir (x : List (Cplx ℝ)) : Prop where
  grid : ∀ s ∈ x, s = 0 ∨ OnGrid s
  live : 0 < livePairs x
  coherent : x.length - 1 ≤ 5 * livePairs x

/-- **No carrier is left** behind the blind stage. -/
theorem preCorrect_tone {demod : Demodulator ℝ} {g φ f : ℝ} {x : List (Cplx ℝ)}
    (hg : 1 / 10 ^ 6 < g) (hlow : -(1 / 8) < carrierLeft demod f)
    (hhigh : carrierLeft demod f ≤ 1 / 8) (hx : OnAir x) :
    preCorrect (codeStages s) demod (onCarrier g φ f x)
      = onCarrier g φ 0 x := by
  have hcorrected : (if demod.state ≠ .search ∧ demod.afc.freqEst ≠ 0 then
        (codeStages s).derotate demod.afc.freqEst (onCarrier g φ f x)
      else onCarrier g φ f x) = onCarrier g φ (carrierLeft demod f) x := by
    rw [carrierLeft]
    by_cases hsearch : demod.state = .search
    · rw [if_neg (fun h => h.1 hsearch), if_pos hsearch]
    · rw [if_neg hsearch]
      by_cases hzero : demod.afc.freqEst = 0
      · rw [if_neg (fun h => h.2 hzero), hzero, sub_zero]
      · rw [if_pos ⟨hsearch, hzero⟩]
        exact derotate_onCarrier g φ f _ x
  rw [preCorrect, hcorrected]
  exact coarseBlindCarrier_tone hg hlow hhigh hx.grid hx.live hx.coherent

/-! ### The search -/

/-- A receiver that looks where the header is: in the acquisition window, or around a prediction
for the same MODCOD. -/
def Aimed (demod : Demodulator ℝ) (mc : Modcod) (lead : ℕ) : Prop :=
  if demod.tracking then
    demod.modcod = some mc ∧ lead ≤ demod.predictedWhStart + 164 ∧
      demod.predictedWhStart ≤ lead + 256
  else lead ≤ 4004

variable {mc : Modcod} {goldIdx lead : ℕ} {bits : List Bool} {g φ : ℝ} {sym : List (Cplx ℝ)}

theorem HeaderAt.drop (h : HeaderAt mc goldIdx bits lead g φ sym) {base : ℕ} (hbase : base ≤ lead) :
    HeaderAt mc goldIdx bits (lead - base) g φ (sym.drop base) := by
  refine ⟨h.modcod, h.gain, fun k hk => ?_, fun k hk => ?_⟩
  · rw [getD_drop, h.before (base + k) (by omega)]
  · rw [getD_drop, show base + (lead - base + k) = lead + k by omega, h.frame k hk]

theorem headerSync_at (h : HeaderAt mc goldIdx bits lead g φ sym) {len : ℕ}
    (hlow : lead + 988 ≤ len) (hhigh : len ≤ lead + 4992) (hlen : len ≤ 2 ^ 30 - 895)
    {preferredModcod : ℕ} (hsearched : mc.index - 1 ∈ searchedModcods preferredModcod) :
    (codeStages s).headerSync sym len preferredModcod
      = ⟨1, lead + 92, mc.index⟩ := by
  obtain ⟨t', hrun⟩ := h.search hlow hhigh s.reach hlen hsearched s.fuel_le
  show ((vlsnrHeaderSyncMode Sqrt2.exact SyncMath.exact s.fuel s.tables sym len syncSegLen
    preferredModcod true).map Prod.snd).getD ⟨-1, 0, 1⟩ = ⟨1, lead + 92, mc.index⟩
  rw [hrun]
  rfl

/-- **The search ends at the header**, by either branch. -/
theorem headerSearch_at (h : HeaderAt mc goldIdx bits lead g φ sym) {demod : Demodulator ℝ}
    (haimed : Aimed demod mc lead) {inLen : ℕ} (hroom : lead + modFrameLen mc ≤ inLen)
    (hlen : inLen < 2 ^ 32) :
    headerSearch (codeStages s) demod sym inLen
      = ⟨1, lead + 92, mc.index⟩ := by
  have hframe := modFrameLen_ge mc
  have hconf : ¬(1 : ℝ) < 9 / 20 := by norm_num
  obtain ⟨hmcLow, hmcHigh, -⟩ := modcod_headers mc h.modcod
  rw [Aimed] at haimed
  rw [headerSearch]
  split at haimed
  case isTrue htrack =>
    obtain ⟨hmodcod, hnear, hfar⟩ := haimed
    have hbase : trackBase demod ≤ lead ∧ lead ≤ trackBase demod + 420 := by
      rw [trackBase, show trackSearchRadius = 256 from rfl]
      split
      · omega
      · omega
    have htrackLen : trackLen demod inLen = 1408 := by
      rw [trackLen, show 2 * trackSearchRadius + vlsnrWhLen = 1408 from rfl, if_neg]
      omega
    have hsync : (codeStages s).headerSync (sym.drop (trackBase demod)) 1408
        mc.index = ⟨1, lead - trackBase demod + 92, mc.index⟩ := by
      refine headerSync_at s (h.drop hbase.1) (by omega) (by omega) (by decide) ?_
      rw [searchedModcods, if_pos ⟨hmcLow, hmcHigh⟩]
      exact List.mem_singleton.mpr rfl
    have htracked : trackSearch (codeStages s) demod sym inLen
        = ⟨1, lead + 92, mc.index⟩ := by
      rw [trackSearch, hmodcod, htrackLen]
      dsimp only
      rw [hsync]
      have hoffset : (lead - trackBase demod + 92 + trackBase demod) % 2 ^ 32 = lead + 92 := by
        rw [show lead - trackBase demod + 92 + trackBase demod = lead + 92 by omega,
          Nat.mod_eq_of_lt (by omega)]
      dsimp only
      rw [hoffset]
    rw [if_pos htrack, htracked]
    exact if_neg hconf
  case isFalse htrack =>
    rw [if_neg htrack, acquireSearch, show acqWindow + vlsnrWhLen = 4992 from rfl,
      if_pos (by omega)]
    have hsync : (codeStages s).headerSync sym 4992 0
        = ⟨1, lead + 92, mc.index⟩ := by
      refine headerSync_at s h (by omega) (by omega) (by decide) ?_
      rw [searchedModcods, if_neg (by omega)]
      exact List.mem_range.mpr (by omega)
    rw [hsync]
    dsimp only
    rw [Nat.mod_eq_of_lt (by omega)]

/-! ### The demapper -/

theorem half_mul_half : Sqrt2.exact.half * Sqrt2.exact.half = 1 / 2 := by
  show (√2)⁻¹ * (√2)⁻¹ = (1 / 2 : ℝ)
  rw [← mul_inv, Real.mul_self_sqrt zero_le_two, one_div]

theorem demapNoise_pos (rx : RxStages ℝ) (lay : VlsnrLayout) (pilots : List (Cplx ℝ))
    {noiseVar : ℝ} (nvEst : ℝ) : 0 < demapNoise rx lay pilots noiseVar nvEst := by
  have hfloor : (0 : ℝ) < 1 / 10000 := by norm_num
  rw [demapNoise]
  split
  · assumption
  · split
    · dsimp only
      split
      · exact hfloor
      · rename_i h
        exact lt_of_lt_of_le hfloor (not_lt.mp h)
    · split
      · rename_i h
        exact hfloor.trans h
      · exact hfloor

/-- The pilots of a frame at a gain close to one show little noise. -/
theorem demapNoise_le (rx : RxStages ℝ) (hrx : rx.const = Sqrt2.exact) (lay : VlsnrLayout)
    {pilots : List (Cplx ℝ)} (hlen : pilots.length = lay.numPilot)
    (hpilots : ∀ p ∈ pilots, p = ⟨g * Sqrt2.exact.half, g * Sqrt2.exact.half⟩) (hlow : 1 / 4 ≤ g)
    (hhigh : g ≤ 4) {noiseVar : ℝ} (hnoise : noiseVar ≤ 1000) :
    demapNoise rx lay pilots noiseVar 0 ≤ 1000 := by
  have hsquare : (g - 1) ^ 2 ≤ 9 := by
    rw [show (9 : ℝ) = 3 ^ 2 by norm_num, sq_le_sq, abs_le, abs_of_pos (by norm_num : (0 : ℝ) < 3)]
    constructor <;> linarith
  rw [demapNoise, hrx]
  split
  · exact hnoise
  · split
    · rename_i hpos
      have hterm : ∀ p ∈ pilots, (p.i - Sqrt2.exact.half) * (p.i - Sqrt2.exact.half)
          + (p.q - Sqrt2.exact.half) * (p.q - Sqrt2.exact.half) = (g - 1) ^ 2 := by
        intro p hp
        rw [hpilots p hp]
        calc _ = (g - 1) ^ 2 * (2 * (Sqrt2.exact.half * Sqrt2.exact.half)) := by ring
          _ = (g - 1) ^ 2 := by rw [half_mul_half]; ring
      have hsum := List.sum_le_card_nsmul (pilots.map fun p =>
        (p.i - Sqrt2.exact.half) * (p.i - Sqrt2.exact.half)
          + (p.q - Sqrt2.exact.half) * (p.q - Sqrt2.exact.half)) 9 fun x hx => by
            obtain ⟨p, hp, rfl⟩ := List.mem_map.mp hx
            rw [hterm p hp]
            exact hsquare
      rw [List.length_map, hlen, nsmul_eq_mul] at hsum
      have hcount : (0 : ℝ) < lay.numPilot := by exact_mod_cast Nat.pos_of_ne_zero hpos
      dsimp only
      split
      · norm_num
      · rw [div_le_iff₀ (by linarith)]
        linarith
    · split
      · norm_num
      · norm_num

/-- **The LLRs of a frame tell its bits**, and none is close to zero. -/
theorem frameLlr_at (h : HeaderAt mc goldIdx bits lead g φ sym) (hlow : 1 / 4 ≤ g) (hhigh : g ≤ 4)
    (hroom : lead + modFrameLen mc ≤ sym.length) (hlen : sym.length < 2 ^ 32)
    {noiseVar : ℝ} (hnoise : noiseVar ≤ 1000) :
    ∃ llr : List ℝ, (∀ i < txCodedBits mc, Tells (bits.getD i false) (llr.getD i 0)) ∧
      (∀ i < txCodedBits mc, Deep boxplusLevel 0 (llr.getD i 0)) ∧
      frameLlr (codeStages s) goldIdx mc (lead + 92) noiseVar 0 sym
        = (expandLlr mc (deinterleave mc llr)).fullLlr := by
  have hframe := modFrameLen_ge mc
  obtain ⟨hcount, hpilots, -, -⟩ := modcod_layout mc h.modcod
  have hstart : dataStart (lead + 92) = lead + 990 := by
    rw [dataStart, show vlsnrWhLen = 896 from rfl, Nat.mod_eq_of_lt (by omega)]
  obtain ⟨out, hout, hfield⟩ := h.tracked hroom s.rounds_le
  rw [frameLlr]
  have hcoarse : (codeStages s).coarseFreqRecover mc (lead + 92)
      ((codeStages s).esn0 0) sym = sym := h.coarse _
  have htrack : (codeStages s).residualCarrierTrack mc (lead + 92)
      (memcpyAt sym (lead + 990) ((plainField mc bits).map (phasor g φ * ·))) = out := by
    show (residualCarrierTrack CarrierMath.exact Sqrt2.exact s.rounds _ (lead + 92)
      (buildLayout mc) (whRef Sqrt2.exact mc)).getD _ = out
    rw [hout]
    rfl
  rw [hcoarse, hstart, h.descrambled hroom, htrack, hfield, pilotExtract_map, plainField,
    pilotExtract_insert _ (plSymbols_length _ h.modcod bits) hcount]
  generalize hnv : demapNoise _ _ _ noiseVar 0 = nv
  have hpos : 0 < nv := hnv ▸ demapNoise_pos _ _ _ _
  have hnv1000 : nv ≤ 1000 := by
    refine hnv ▸ demapNoise_le (codeStages s) rfl _ ?_ (fun p hp => ?_) hlow hhigh hnoise
    · rw [List.length_map, List.length_replicate, hpilots]
    · obtain ⟨q, hq, rfl⟩ := List.mem_map.mp hp
      rw [List.eq_of_mem_replicate hq]
      ext
      · simp [Sqrt2.pilot]
      · simp [Sqrt2.pilot]
  obtain ⟨scale, hscale, hstrong, hllr⟩ :=
    plLlr_symbols Sqrt2.exact h.modcod bits (div_pos hpos h.gain)
  have hamp := mul_pos hscale Sqrt2.exact.half_pos
  have hread : ∀ i < txCodedBits mc, (plLlr (codeStages s).const mc
      ((plSymbols Sqrt2.exact mc bits).map ((⟨g, 0⟩ : Cplx ℝ) * ·)) nv).getD i 0
      = scale * bitAmp Sqrt2.exact (bits.getD i false) := by
    intro i hi
    show (plLlr Sqrt2.exact mc _ nv).getD i 0 = _
    rw [plLlr_map, hllr, getD_map_range, if_pos hi]
  refine ⟨_, fun i hi => ?_, fun i hi => .inr ?_, rfl⟩
  · rw [hread i hi, bitAmp, Tells]
    cases bits.getD i false
    · exact hamp
    · exact (mul_neg scale Sqrt2.exact.half).trans_lt (neg_lt_zero.mpr hamp)
  · have habs : |scale * bitAmp Sqrt2.exact (bits.getD i false)| = scale * Sqrt2.exact.half := by
      rw [bitAmp]
      cases bits.getD i false
      · exact abs_of_pos hamp
      · show |scale * -Sqrt2.exact.half| = _
        rw [mul_neg, abs_neg, abs_of_pos hamp]
    have hhalf : min Sqrt2.exact.half Sqrt2.exact.two = Sqrt2.exact.half := by
      refine min_eq_left ?_
      show (√2)⁻¹ ≤ √2
      rw [inv_le_iff_one_le_mul₀ (by positivity), Real.mul_self_sqrt zero_le_two]
      exact one_le_two
    rw [hhalf] at hstrong
    have hone : 1 ≤ scale * Sqrt2.exact.half * (nv / g) := by
      have := mul_le_mul_of_nonneg_right hstrong Sqrt2.exact.half_pos.le
      rw [mul_assoc, half_mul_half] at this
      linarith
    have hratio : nv / g ≤ 4000 := by
      rw [div_le_iff₀ h.gain]
      linarith
    have := mul_le_mul_of_nonneg_left hratio hamp.le
    rw [hread i hi, habs]
    norm_num [boxplusLevel]
    linarith

/-! ### The decoders -/

/-- **The decoders correct nothing**, and give back the BBFRAME. -/
theorem frameFec_at (hmc : mc ∈ vlsnrModcodTable) {enc : BchEncoder} {code : LdpcCode}
    (henc : bchEncoderInit mc = some (0, enc)) (hcode : ldpcCodeInit mc = some code)
    {u : List Bool} (hu : u.length = mc.kBch) {demod : Demodulator ℝ}
    (hcancel : demod.cancelRequested = false) {dec : LdpcDecoder}
    (hdec : ldpcDecoderInit mc ldpcMaxIter = some dec) {limit : ℕ} (hlimit : 1 ≤ limit)
    {llr : List ℝ} (hllr : ∀ i < txCodedBits mc,
      Tells ((txCoded mc enc code u).getD i false) (llr.getD i 0))
    (hdeep : ∀ i < txCodedBits mc, Deep boxplusLevel 0 (llr.getD i 0)) :
    let rx := codeStages s
    let full := (expandLlr mc (deinterleave mc llr)).fullLlr
    (rx.ldpc { dec with maxIter := limit } (cancelFlag rx demod) full).iterUsed = 1 ∧
      ∃ w, frameFec rx demod mc dec limit full = .ok w ∧ w.take mc.kBch = u := by
  classical
  intro rx full
  obtain ⟨code', hinit, hwell, -⟩ := modcod_ldpcCode mc hmc
  obtain rfl : code' = code := Option.some.inj (hinit.symm.trans hcode)
  obtain ⟨enc', α, hs⟩ := bchSetup hmc
  obtain rfl : enc' = enc := congrArg Prod.snd (Option.some.inj (hs.init.symm.trans henc))
  obtain ⟨hbchCode, hbchTake⟩ := hs.bchEncode_isCodeword hmc hu
  obtain ⟨hk, -, -, -, -⟩ := modcod_puncture mc hmc
  have hkLdpc : code'.k = mc.kLdpc := by
    obtain ⟨r, -, hr⟩ := Option.map_eq_some_iff.mp hinit
    rw [← hr]
  -- the codeword that was sent
  set info := ldpcInfoWord mc (bchEncode enc' u) with hinfo
  have hbchLen : (bchEncode enc' u).length = mc.nBch := by
    rw [hbchCode.1, hs.n_eq]
  have hinfoLen : info.length = code'.k := by
    rw [hinfo, ldpcInfoWord, List.length_append, List.length_replicate, List.length_take, hbchLen,
      min_self, hkLdpc, hk]
  have htake : (ldpcEncode code' info).take code'.k = info := ldpcEncode_take hinfoLen
  have hshort : ∀ vn < mc.xs, (ldpcEncode code' info).getD vn false = false := by
    intro vn hvn
    rw [← getD_take (show vn < code'.k by omega), htake, hinfo, ldpcInfoWord_getD_lt mc _ hvn]
  have hchecks : ChecksSatisfied code' (ldpcEncode code' info) :=
    (hwell.checksSatisfied_iff (ldpcEncode_length hwell hinfoLen)).mpr (by rw [htake])
  have hbch : bchDecode (bchDecoderInit mc) (bchEncode enc' u) = (0, bchEncode enc' u) := by
    have h := hs.bchDecode_flipBits hbchCode (E := ∅) (by simp) (by simp)
    rwa [flipBits_empty] at h
  obtain ⟨-, vnLlr, hres⟩ := ldpcDecode_expanded hmc hinit hwell (boxplus_checkRule s.lutReach)
    (by norm_num [boxplusLevel]) hlimit (ldpcEncode_length hwell hinfoLen) hchecks hshort hllr hdeep
    []
  have hdecoder : { dec with maxIter := limit }
      = ({ code := code', maxIter := limit, csr := buildCsr code' } : LdpcDecoder) := by
    rw [ldpcDecoderInit, hinit] at hdec
    rw [← Option.some.inj hdec]
  have hflag : cancelFlag rx demod = fun _ => false := by
    funext iter
    rw [cancelFlag, hcancel]
    rfl
  have hrun : rx.ldpc { dec with maxIter := limit } (cancelFlag rx demod) full
      = { ret := 0, output := info, iterUsed := 1, vnLlr := vnLlr } := by
    rw [hdecoder, hflag, ← htake]
    exact hres
  refine ⟨by rw [hrun], bchEncode enc' u, ?_, hbchTake⟩
  rw [frameFec, hrun]
  dsimp only
  rw [if_neg (fun h => absurd h.1 (by decide)), bchWord_ldpcInfoWord hbchLen]
  show (if (bchDecode (bchDecoderInit mc) (bchEncode enc' u)).1 < 0 then Except.error errCrc
    else .ok (bchDecode (bchDecoderInit mc) (bchEncode enc' u)).2) = _
  rw [hbch]
  rfl

/-! ### The call -/

/-- What a receiver needs for a frame of the modulator: its scrambling, a decoder cache of its own
making, and no cancellation. -/
structure Tuned (demod : Demodulator ℝ) (goldIdx : ℕ) : Prop where
  gold : demod.goldIdx = goldIdx
  cancel : demod.cancelRequested = false
  cache : CacheInit demod.ldpcDec
  limit : 1 ≤ demod.maxLdpcIterations

/-- What a call leaves when it delivers the BBFRAME `u` of `mc`: it is ready for the next one, and
predicts the header where it was. -/
structure Delivered (call : RxCall ℝ) (mc : Modcod) (lead goldIdx : ℕ) (state : DemodState) : Prop where
  tuned : Tuned call.demod goldIdx
  modcod : call.demod.modcod = some mc
  predicted : call.demod.haveWhPrediction = true ∧ call.demod.predictedWhStart = lead + 92
  state : call.demod.state = state
  stats : call.demod.lastStats = ⟨mc.index, 1, 120, 1, call.ret⟩

theorem ldpcIterLimit_pos {maxIter : ℕ} (hlimit : 1 ≤ maxIter) (esn0 : ℝ) :
    1 ≤ ldpcIterLimit maxIter esn0 := by
  rw [ldpcIterLimit]
  split
  · decide
  · exact hlimit

/-- **A call on a frame** returns the BBFRAME that was sent. -/
theorem demodulateFrame_at {enc : BchEncoder} {code : LdpcCode} {u : List Bool}
    (h : HeaderAt mc goldIdx (txCoded mc enc code u) lead g φ sym)
    (hroom : lead + modFrameLen mc ≤ sym.length) (hlen : sym.length < 2 ^ 32)
    (henc : bchEncoderInit mc = some (0, enc)) (hcode : ldpcCodeInit mc = some code)
    (hu : u.length = mc.kBch) {demod : Demodulator ℝ} (hdemod : Tuned demod goldIdx) {noiseVar : ℝ}
    (hnv : noiseVar ≤ 1000) (bbframe : List Bool) (frameCapacity : ℕ) :
    let rx := codeStages s
    let sync : HeaderSync ℝ := ⟨1, lead + 92, mc.index⟩
    let call := demodulateFrame rx (demod.clearStats.identify mc sync) mc (lead + 92) sym sym.length
      noiseVar bbframe frameCapacity
    Delivered call mc lead goldIdx demod.state ∧
      (call.ret, call.output, call.outputLen) = if frameCapacity < mc.kBch then
        (errShort, bbframe, mc.kBch) else (ok, memcpyAt bbframe 0 u, mc.kBch) := by
  intro rx sync call
  have hframe := modFrameLen_ge mc
  have hhead : plheaderLen + vlsnrHdrLen = 990 := rfl
  have hfield := modFrameLen_eq h.modcod
  have hstart : dataStart (lead + 92) = lead + 990 := by
    rw [dataStart, show vlsnrWhLen = 896 from rfl, Nat.mod_eq_of_lt (by omega)]
  obtain ⟨g', hlow, hhigh, h'⟩ := h.normalized
  obtain ⟨dec, hdec⟩ : ∃ dec, ldpcDecoderInit mc ldpcMaxIter = some dec := by
    obtain ⟨code', hinit, -⟩ := modcod_ldpcCode mc h.modcod
    exact ⟨_, by rw [ldpcDecoderInit, hinit]; rfl⟩
  set work := normalizeInputLevel CarrierMath.exact sym (lead + 92) (whRef Sqrt2.exact mc) with hwork
  have hworkLen : work.length = sym.length := by
    rw [hwork, normalizeInputLevel]
    split
    · rfl
    · exact List.length_map _
  have hroom' : lead + modFrameLen mc ≤ work.length := hworkLen.symm ▸ hroom
  obtain ⟨llr, hllr, hdeep, hfull⟩ := frameLlr_at s h' hlow hhigh hroom' (hworkLen.symm ▸ hlen) hnv
  -- what the branches test
  have hlong : ¬(dataStart (lead + 92) + (buildLayout mc).fieldLen) % 2 ^ 32 > sym.length := by
    rw [hstart, Nat.mod_eq_of_lt (by omega)]
    omega
  have hnormalize : rx.normalizeInputLevel mc (lead + 92) sym = work := rfl
  have hnoise : rx.estimateNoiseVar mc (lead + 92) work = 0 := h'.noise
  have hesn0 : rx.esn0 0 = 120 := esn0Db_zero
  have hdecoder : frameDecoder demod.ldpcDec mc = some dec :=
    (frameDecoder_eq_init hdemod.cache h.modcod).trans hdec
  set measured := (demod.clearStats.identify mc sync).measure rx mc (lead + 92) work with hmeasured
  obtain ⟨hiter, w, hfec, hw⟩ := frameFec_at s h.modcod henc hcode hu
    (show measured.cancelRequested = false from hdemod.cancel) hdec
    (ldpcIterLimit_pos hdemod.limit (rx.esn0 0)) hllr hdeep
  have hcall : call = if frameCapacity < mc.kBch then
        (measured.decoded rx dec 1).finish errShort bbframe mc.kBch
      else (measured.decoded rx dec 1).finish ok (memcpyAt bbframe 0 u) mc.kBch := by
    show demodulateFrame rx _ mc (lead + 92) sym sym.length noiseVar bbframe frameCapacity = _
    rw [demodulateFrame, if_neg hlong]
    dsimp only
    rw [hnormalize, hnoise, ← hmeasured, show measured.goldIdx = goldIdx from hdemod.gold,
      show measured.ldpcDec = demod.ldpcDec from rfl, hdecoder]
    dsimp only
    rw [show (demod.clearStats.identify mc sync).maxLdpcIterations = demod.maxLdpcIterations from rfl,
      hfull, hfec, hiter]
    dsimp only
    rw [hw]
  have htuned : ∀ ret output len,
      Delivered ((measured.decoded rx dec 1).finish ret output len) mc lead goldIdx demod.state := by
    intro ret output len
    have hcancel : cancelAfter rx measured = false := by
      rw [cancelAfter, show measured.cancelRequested = false from hdemod.cancel]
      rfl
    have hcache : CacheInit (some dec) := frameDecoder_cacheInit hdemod.cache h.modcod hdecoder
    refine ⟨⟨hdemod.gold, hcancel, hcache, hdemod.limit⟩, rfl, ⟨rfl, rfl⟩, rfl, ?_⟩
    have hstats : ((measured.decoded rx dec 1).finish ret output len).demod.lastStats
        = ⟨mc.index, 1, rx.esn0 (rx.estimateNoiseVar mc (lead + 92) work), 1, ret⟩ := rfl
    rw [hstats, hnoise, hesn0]
    rfl
  rw [hcall]
  split
  · exact ⟨htuned _ _ _, rfl⟩
  · exact ⟨htuned _ _ _, rfl⟩

/-! ### Bursts -/

omit s in
theorem burst_getD (hmc : mc ∈ vlsnrModcodTable) (tail : List (Cplx ℝ)) {k : ℕ}
    (hk : k < modFrameLen mc) : (burst mc goldIdx bits lead tail).getD (lead + k) 0
      = (modFrame Sqrt2.exact mc goldIdx bits).getD k 0 := by
  rw [burst, List.getD_append_right _ _ _ _ (by rw [List.length_replicate]; omega),
    List.length_replicate, Nat.add_sub_cancel_left,
    List.getD_append _ _ _ _ (by rwa [modFrame_length _ hmc])]

omit s in
theorem burst_length (hmc : mc ∈ vlsnrModcodTable) (tail : List (Cplx ℝ)) :
    (burst mc goldIdx bits lead tail).length = lead + modFrameLen mc + tail.length := by
  rw [burst, List.length_append, List.length_append, List.length_replicate, modFrame_length _ hmc,
    Nat.add_assoc]

omit s in
/-- A frame is enough for the blind stage, with up to four times as much around it. -/
theorem onAir_burst (hmc : mc ∈ vlsnrModcodTable) {tail : List (Cplx ℝ)}
    (htail : ∀ s ∈ tail, s = 0 ∨ OnGrid s) (hroom : lead + tail.length ≤ 4 * (modFrameLen mc - 1)) :
    OnAir (burst mc goldIdx bits lead tail) := by
  classical
  have hframe := modFrameLen_ge mc
  have hlen : (burst mc goldIdx bits lead tail).length = lead + modFrameLen mc + tail.length :=
    burst_length hmc tail
  have hlive : modFrameLen mc - 1 ≤ livePairs (burst mc goldIdx bits lead tail) := by
    have hloud : ∀ k < modFrameLen mc, (burst mc goldIdx bits lead tail).getD (lead + k) 0 ≠ 0 := by
      intro k hk
      have hk' : k < (modFrame Sqrt2.exact mc goldIdx bits).length := by
        rwa [modFrame_length _ hmc]
      rw [burst_getD hmc tail hk, List.getD_eq_getElem _ _ hk']
      exact (modFrame_grid hmc goldIdx bits _ (List.getElem_mem hk')).ne_zero
    rw [livePairs, ← Finset.card_range (modFrameLen mc - 1)]
    refine Finset.card_le_card_of_injOn (lead + ·) (fun k hk => ?_)
      fun a _ b _ hab => Nat.add_left_cancel hab
    have hk' := Finset.mem_range.mp hk
    have hin : lead + k < (burst mc goldIdx bits lead tail).length - 1 := by omega
    refine Finset.mem_coe.mpr (Finset.mem_filter.mpr ⟨Finset.mem_range.mpr hin,
      hloud k (by omega), ?_⟩)
    rw [Nat.add_assoc]
    exact hloud (k + 1) (by omega)
  refine ⟨fun s hs => ?_, by omega, by omega⟩
  rcases List.mem_append.mp hs with hsilence | hs
  · exact .inl (List.eq_of_mem_replicate hsilence)
  · rcases List.mem_append.mp hs with hframe | hs
    · exact .inr (modFrame_grid hmc goldIdx bits s hframe)
    · exact htail s hs

/-- What the channel does: a gain, a phase and a carrier that the blind stage can take off behind
the pre-correction. -/
structure Channel (demod : Demodulator ℝ) (g f : ℝ) : Prop where
  gain : 1 / 10 ^ 6 < g
  low : -(1 / 8) < carrierLeft demod f
  high : carrierLeft demod f ≤ 1 / 8

/-- **A call on a burst** of a BBFRAME. -/
theorem demodulateBbframeSymbols_at {enc : BchEncoder} {code : LdpcCode} {u : List Bool}
    (hmc : mc ∈ vlsnrModcodTable) (henc : bchEncoderInit mc = some (0, enc))
    (hcode : ldpcCodeInit mc = some code) (hu : u.length = mc.kBch) {demod : Demodulator ℝ}
    (hdemod : Tuned demod goldIdx) (haimed : Aimed demod mc lead) {f : ℝ}
    (hchannel : Channel demod g f) {tail : List (Cplx ℝ)} (htail : ∀ s ∈ tail, s = 0 ∨ OnGrid s)
    (hroom : lead + tail.length ≤ 4 * (modFrameLen mc - 1)) {noiseVar : ℝ} (hnoise : 0 ≤ noiseVar)
    (hnv : noiseVar ≤ 1000) (bbframe : List Bool) (frameCapacity : ℕ) :
    let x := burst mc goldIdx (txCoded mc enc code u) lead tail
    let call := demodulateBbframeSymbols (codeStages s) demod (onCarrier g φ f x) noiseVar bbframe
      frameCapacity
    Delivered call mc lead goldIdx demod.state ∧
      (call.ret, call.output, call.outputLen) = if frameCapacity < mc.kBch then
        (errShort, bbframe, mc.kBch) else (ok, memcpyAt bbframe 0 u, mc.kBch) := by
  intro x call
  have hframe := modFrameLen_ge mc
  have hframe' : modFrameLen mc ≤ vlsnrFrameLong := by
    rw [modFrameLen]
    split
    · exact le_rfl
    · decide
  have hlong : vlsnrFrameLong < 2 ^ 20 := by decide
  have hx : x.length = lead + modFrameLen mc + tail.length := burst_length hmc tail
  have hin : (onCarrier g φ f x).length = x.length := onCarrier_length g φ f x
  have hwork : (onCarrier g φ 0 x).length = x.length := onCarrier_length g φ 0 x
  have hat : HeaderAt mc goldIdx (txCoded mc enc code u) lead g φ (onCarrier g φ 0 x) :=
    headerAt_burst hmc (lt_trans (by norm_num) hchannel.gain) tail
  have hcorrect : preCorrect (codeStages s) demod.clearStats (onCarrier g φ f x)
      = onCarrier g φ 0 x :=
    preCorrect_tone s hchannel.gain hchannel.low hchannel.high (onAir_burst hmc htail hroom)
  have hsearch : headerSearch (codeStages s) demod.clearStats (onCarrier g φ 0 x)
      (onCarrier g φ f x).length = ⟨1, lead + 92, mc.index⟩ :=
    headerSearch_at s hat haimed (by omega) (by omega)
  have hget : vlsnrGetModcod mc.index = some mc := (modcod_index mc hmc).2
  have hcall : call = demodulateFrame (codeStages s)
      (demod.clearStats.identify mc ⟨1, lead + 92, mc.index⟩) mc (lead + 92) (onCarrier g φ 0 x)
      (onCarrier g φ 0 x).length noiseVar bbframe frameCapacity := by
    show demodulateBbframeSymbols (codeStages s) demod (onCarrier g φ f x) noiseVar bbframe
      frameCapacity = _
    rw [demodulateBbframeSymbols, if_neg (not_lt.mpr hnoise)]
    dsimp only
    rw [show demod.clearStats.cancelRequested = false from hdemod.cancel,
      if_neg Bool.false_ne_true, if_neg (by rw [hin, hx]; show ¬_ < 986; omega), hcorrect, hsearch]
    dsimp only
    rw [if_neg (by norm_num), hget, hin, hwork]
  rw [hcall]
  exact demodulateFrame_at s hat (by omega) (by omega) henc hcode hu hdemod hnv bbframe frameCapacity

/-! ### After any calls -/

section
variable {R : Type*} [Field R] [LinearOrder R]

theorem DecodeOutcome.maxLdpcIterations {rx : RxStages R} {demod : Demodulator R}
    {input : List (Cplx R)} {noiseVar : R} {capacity : ℕ} {returnBbframe : Bool} {call : RxCall R}
    (h : DecodeOutcome rx demod input noiseVar capacity returnBbframe call) :
    call.demod.maxLdpcIterations = demod.maxLdpcIterations := by
  cases h <;> rfl

omit [Field R] [LinearOrder R] in
theorem expectFrame_maxLdpcIterations (demod : Demodulator R) :
    (expectFrame demod).2.maxLdpcIterations = demod.maxLdpcIterations := by
  rw [expectFrame]
  split
  · split <;> rfl
  · rfl

omit [LinearOrder R] in
theorem demodLockUpdate_maxLdpcIterations (demod : Demodulator R) (success : Bool) :
    (demodLockUpdate demod success).maxLdpcIterations = demod.maxLdpcIterations := by
  cases success with
  | true =>
    obtain ⟨state, -, hupdate⟩ := demodLockUpdate_success demod
    rw [hupdate]
  | false =>
    rcases demodLockUpdate_failure demod with hupdate | hupdate
    · rw [hupdate]
    · rw [hupdate]
      rfl

/-- No call takes the last iteration away. -/
theorem maxLdpcIterations_step {demod : Demodulator R} (h : 1 ≤ demod.maxLdpcIterations)
    (op : DemodOp R) : 1 ≤ (demodStep demod op).maxLdpcIterations := by
  cases op with
  | stream rx input output capacity returnBbframe =>
    have happ : (streamAppend demod input).maxLdpcIterations = demod.maxLdpcIterations := by
      obtain ⟨streamCap, happ⟩ := streamAppend_eq demod input
      rw [happ]
    have houtcome := demodulateStream_outcome rx demod input output capacity returnBbframe
    show 1 ≤ (demodulateStream rx demod input output capacity returnBbframe).demod.maxLdpcIterations
    generalize demodulateStream rx demod input output capacity returnBbframe = call at houtcome
    cases houtcome with
    | overflow hover => exact h
    | waits hroom hwaits => exact happ.symm ▸ h
    | tooLong hroom hlong => exact happ.symm ▸ h
    | short hroom hwaits hfew hattempt hret =>
      rw [expectFrame_maxLdpcIterations, hattempt.maxLdpcIterations, happ]
      exact h
    | @removed call hroom hwaits hfew hattempt hret =>
      show 1 ≤ (demodLockUpdate (expectFrame call.demod).2 _).maxLdpcIterations
      rw [demodLockUpdate_maxLdpcIterations, expectFrame_maxLdpcIterations,
        hattempt.maxLdpcIterations, happ]
      exact h
  | burst rx input output capacity returnBbframe =>
    show 1 ≤ (decodeBurst rx demod input output capacity returnBbframe).demod.maxLdpcIterations
    rw [decodeBurst_eq,
      (decodeSymbols_outcome rx demod _ 0 output capacity returnBbframe).maxLdpcIterations]
    exact h
  | symbols rx input noiseVar output capacity returnBbframe =>
    show 1 ≤ (decodeSymbols rx demod input noiseVar output capacity
      returnBbframe).demod.maxLdpcIterations
    rw [(decodeSymbols_outcome rx demod input noiseVar output capacity
      returnBbframe).maxLdpcIterations]
    exact h
  | requestCancel => exact h
  | setMaxLdpcIterations maxIterations =>
    show 1 ≤ (demodulatorSetMaxLdpcIterations demod maxIterations).2.maxLdpcIterations
    rw [demodulatorSetMaxLdpcIterations]
    split
    · exact h
    · rename_i hrange
      show 1 ≤ maxIterations
      omega

theorem maxLdpcIterations_run {demod : Demodulator R} (h : 1 ≤ demod.maxLdpcIterations)
    (ops : List (DemodOp R)) : 1 ≤ (demodRun demod ops).maxLdpcIterations := by
  induction ops generalizing demod with
  | nil => exact h
  | cons op ops ih => exact ih (maxLdpcIterations_step h op)

end

omit s in
/-- **A receiver stays ready**, whatever calls it answers. -/
theorem tuned_run {rolloff : ℝ} {sps goldIdx : ℕ} {demod : Demodulator ℝ}
    (hinit : demodulatorInit rolloff sps goldIdx = .ok demod) (ops : List (DemodOp ℝ))
    (hops : ∀ op ∈ ops, op.uncancelled) : Tuned (demodRun demod ops) goldIdx := by
  obtain ⟨rfl, -⟩ := demodulatorInit_ok hinit
  have hinv := historyInv_fresh rolloff sps goldIdx ops hops
  exact ⟨hinv.goldIdx, hinv.cancelRequested, hinv.ldpcDec,
    maxLdpcIterations_run (show 1 ≤ ldpcMaxIter by decide) ops⟩

/-! ### The path -/

/-- What lies between the modulator and the receiver: silence in front of the frame, what follows
it, a gain, a phase and a carrier. -/
structure AirPath where
  lead : ℕ
  tail : List (Cplx ℝ)
  gain : ℝ
  phase : ℝ
  carrier : ℝ

/-- The symbols that arrive. -/
noncomputable def AirPath.carry (path : AirPath) (frame : List (Cplx ℝ)) : List (Cplx ℝ) :=
  onCarrier path.gain path.phase path.carrier
    (List.replicate path.lead 0 ++ (frame ++ path.tail))

/-- A path that a receiver can cope with: the header is where it looks, the carrier is one it can
take off, and there is at most four times the frame around it, silence or constellation points. -/
structure AirPath.Clear (path : AirPath) (demod : Demodulator ℝ) (mc : Modcod) : Prop where
  aimed : Aimed demod mc path.lead
  channel : Channel demod path.gain path.carrier
  tail : ∀ s ∈ path.tail, s = 0 ∨ OnGrid s
  room : path.lead + path.tail.length ≤ 4 * (modFrameLen mc - 1)

/-- A path that a receiver can cope with before it has a lock. -/
structure AirPath.Acquirable (path : AirPath) (mc : Modcod) : Prop where
  lead : path.lead ≤ 4004
  gain : 1 / 10 ^ 6 < path.gain
  low : -(1 / 8) < path.carrier
  high : path.carrier ≤ 1 / 8
  tail : ∀ s ∈ path.tail, s = 0 ∨ OnGrid s
  room : path.lead + path.tail.length ≤ 4 * (modFrameLen mc - 1)

omit s in
theorem AirPath.Acquirable.clear {path : AirPath} (h : path.Acquirable mc) {demod : Demodulator ℝ}
    (hsearch : demod.state = .search) : path.Clear demod mc := by
  have htracking : ¬demod.tracking = true := by simp [Demodulator.tracking, hsearch]
  have hcarrier : carrierLeft demod path.carrier = path.carrier := if_pos hsearch
  refine ⟨?_, ⟨h.gain, ?_, ?_⟩, h.tail, h.room⟩
  · rw [Aimed, if_neg htracking]
    exact h.lead
  · rw [hcarrier]
    exact h.low
  · rw [hcarrier]
    exact h.high

/-! ### A first frame -/

/-- Stages before any search, with nothing in front of the symbols. -/
noncomputable def startSetup : StageSetup where
  tables := .start
  lut := ldpcLutInit (fun x => Real.log (1 + x)) Real.exp .start
  fuel := 2 ^ 30 + 31
  rounds := 20
  frontEnd := fun _ _ x => x
  reach := .start
  lutReach := .init .start
  fuel_le := le_rfl
  rounds_le := le_rfl

/-- Ten symbols of silence, then the frame, at twice its level and behind a carrier. -/
noncomputable def firstPath : AirPath := ⟨10, [], 2, 1, 1 / 100⟩

theorem demodulatorInit_real :
    demodulatorInit (1 / 5 : ℝ) 2 7 = .ok (freshDemodulator (1 / 5) 2 7) := by
  rw [demodulatorInit, if_neg (by norm_num), if_neg (by decide)]

theorem firstPath_acquirable (mc : Modcod) : firstPath.Acquirable mc := by
  have hframe := modFrameLen_ge mc
  refine ⟨by decide, ?_, ?_, ?_, fun s hs => absurd hs List.not_mem_nil, ?_⟩
  · show (1 / 10 ^ 6 : ℝ) < 2
    norm_num
  · show (-(1 / 8) : ℝ) < 1 / 100
    norm_num
  · show (1 / 100 : ℝ) ≤ 1 / 8
    norm_num
  · show 10 + 0 ≤ _
    omega

/-! ### Modulator and receiver -/

/-- What a modulator puts on the air when the buffer has room. -/
theorem ModAlike.airFrame {mod₀ mod : Modulator ℝ} (h : ModAlike mod₀ mod)
    (hmc : mod₀.modcod ∈ vlsnrModcodTable) (u : List Bool) (buf : List (Cplx ℝ)) {capacity : ℕ}
    (hcapacity : modFrameLen mod₀.modcod ≤ capacity) :
    let sent := modulateBbframeSymbols Sqrt2.exact mod u buf capacity
    sent.ret = ok ∧ sent.symbols.take sent.symLen = modFrame Sqrt2.exact mod₀.modcod
      mod₀.plScramblingIdx (txCoded mod₀.modcod mod₀.bchEnc mod₀.ldpcEnc u) := by
  intro sent
  have hsent : sent = ⟨ok, memcpyAt buf 0 (modFrame Sqrt2.exact mod₀.modcod mod₀.plScramblingIdx
      (txCoded mod₀.modcod mod₀.bchEnc mod₀.ldpcEnc u)), modFrameLen mod₀.modcod⟩ := by
    show modulateBbframeSymbols Sqrt2.exact mod u buf capacity = _
    rw [modulateBbframeSymbols_eq Sqrt2.exact hmc h.modcod, if_neg (not_lt.mpr hcapacity),
      h.bchEnc, h.ldpcEnc, h.plScramblingIdx]
  rw [hsent]
  refine ⟨rfl, ?_⟩
  rw [memcpyAt, List.take_zero, List.nil_append, List.take_left' (modFrame_length _ hmc _ _)]

/-- **A BBFRAME goes through.**  Whatever calls modulator and receiver have answered before, the
receiver returns the BBFRAME that the modulator was given, or the room that it needs, and predicts
the header where it was. -/
theorem loopback_bbframe {math : RrcMath ℝ} {modcodIdx : ℕ} {rolloff : ℝ} {sps goldIdx : ℕ}
    {mod₀ : Modulator ℝ} (hmod : modulatorInit math modcodIdx rolloff sps goldIdx = some (.ok mod₀))
    (modOps : List (ModOp ℝ)) {rolloff' : ℝ} {sps' : ℕ} {demod₀ : Demodulator ℝ}
    (hdemod : demodulatorInit rolloff' sps' goldIdx = .ok demod₀) (ops : List (DemodOp ℝ))
    (hops : ∀ op ∈ ops, op.uncancelled) {u : List Bool} (hu : u.length = mod₀.modcod.kBch)
    (buf : List (Cplx ℝ)) {capacity : ℕ} (hcapacity : modFrameLen mod₀.modcod ≤ capacity)
    {path : AirPath} (hclear : path.Clear (demodRun demod₀ ops) mod₀.modcod) {noiseVar : ℝ}
    (hnoise : 0 ≤ noiseVar) (hnv : noiseVar ≤ 1000) (bbframe : List Bool) (frameCapacity : ℕ) :
    let mc := mod₀.modcod
    let sent := modulateBbframeSymbols Sqrt2.exact (modRun Sqrt2.exact mod₀ modOps) u buf capacity
    let demod := demodRun demod₀ ops
    let call := demodulateBbframeSymbols (codeStages s) demod
      (path.carry (sent.symbols.take sent.symLen)) noiseVar bbframe frameCapacity
    sent.ret = ok ∧ Delivered call mc path.lead goldIdx demod.state ∧
      (call.ret, call.output, call.outputLen) = if frameCapacity < mc.kBch then
        (errShort, bbframe, mc.kBch) else (ok, memcpyAt bbframe 0 u, mc.kBch) := by
  intro mc sent demod call
  obtain ⟨hready, -, -, hgold⟩ := modulatorInit_ready hmod
  obtain ⟨-, halike⟩ := modRun_inv Sqrt2.exact modOps hready (.refl mod₀)
  obtain ⟨hret, hair⟩ := halike.airFrame hready.mem u buf hcapacity
  refine ⟨hret, ?_⟩
  have hcall := demodulateBbframeSymbols_at s (φ := path.phase) hready.mem hready.bch hready.ldpc
    hu (tuned_run hdemod ops hops) hclear.aimed hclear.channel hclear.tail hclear.room hnoise hnv
    bbframe frameCapacity
  show Delivered (demodulateBbframeSymbols (codeStages s) demod
    (path.carry (sent.symbols.take sent.symLen)) noiseVar bbframe frameCapacity) mc path.lead goldIdx
    demod.state ∧ _
  rw [show call = demodulateBbframeSymbols (codeStages s) demod
    (path.carry (sent.symbols.take sent.symLen)) noiseVar bbframe frameCapacity from rfl, hair, hgold]
  exact hcall

/-- A BBFRAME of ones, after a change of the iteration limit. -/
theorem loopback_bbframe_first : ∃ mod₀ : Modulator ℝ,
    modulatorInit RrcMath.exact 5 (1 / 5) 2 7 = some (.ok mod₀) ∧
      let u := List.replicate mod₀.modcod.kBch true
      let sent := modulateBbframeSymbols Sqrt2.exact (modRun Sqrt2.exact mod₀ []) u []
        (modFrameLen mod₀.modcod)
      let demod := demodRun (freshDemodulator (1 / 5) 2 7) [.setMaxLdpcIterations 10]
      let call := demodulateBbframeSymbols (codeStages startSetup) demod
        (firstPath.carry (sent.symbols.take sent.symLen)) (1 / 10) [] mod₀.modcod.kBch
      (call.ret, call.output, call.outputLen) = (ok, u, mod₀.modcod.kBch) := by
  obtain ⟨mod₀, hinit, -⟩ := (modulatorInit_accepts RrcMath.exact 5 (1 / 5) 2 7).1
    ⟨by decide, by decide, by norm_num, by decide⟩
  refine ⟨mod₀, hinit, ?_⟩
  have h := (loopback_bbframe startSetup hinit [] demodulatorInit_real [.setMaxLdpcIterations 10]
    (by simp [DemodOp.uncancelled]) (u := List.replicate mod₀.modcod.kBch true) List.length_replicate
    [] le_rfl ((firstPath_acquirable _).clear rfl) (show (0 : ℝ) ≤ 1 / 10 by norm_num)
    (by norm_num) [] mod₀.modcod.kBch).2.2
  rw [if_neg (lt_irrefl _), memcpyAt, List.take_nil, List.drop_nil, List.nil_append,
    List.append_nil] at h
  exact h

omit s in
/-- A built frame fills an empty buffer as far as it goes. -/
theorem bbFrameBuild_length {ctx : BbFrameCtx} (hgs : ctx.streamType = .gs)
    (hk : ctx.kBch = bbHeaderBits + ctx.dfl) {userData : List Bool}
    (hlen : userData.length ≤ ctx.dfl) :
    (bbFrameBuild ctx userData userData.length []).2.length = ctx.kBch := by
  have hheader : ((bbBuildHeader ctx userData.length).flatMap byteBits).length = bbHeaderBits := by
    rw [flatMap_byteBits_length, bbBuildHeader_length]
    rfl
  have hbuild : (bbFrameBuild ctx userData userData.length []).2
      = bbScramble ((bbBuildHeader ctx userData.length).flatMap byteBits ++ gsField ctx userData)
        ctx.kBch := by
    rw [bbFrameBuild, if_neg (not_or.mpr ⟨not_not.mpr hgs, not_lt.mpr hlen⟩), List.take_length]
    dsimp only
    rw [show memcpyAt ([] : List Bool) 0 ((bbBuildHeader ctx userData.length).flatMap byteBits)
        = (bbBuildHeader ctx userData.length).flatMap byteBits ++ [] from rfl,
      memcpyAt_behind _ _ _ hheader, List.drop_nil,
      memcpyAt_behind _ _ _ (by rw [List.length_append, hheader]), List.drop_nil, List.append_nil,
      List.append_assoc, ← gsField]
  rw [hbuild, bbScramble, List.length_append, bbScrambleFrom_length, ← List.length_append,
    List.take_append_drop, List.length_append, hheader, gsField_length hlen, hk]

/-- **A call on a burst** of user data. -/
theorem demodulateSymbols_at {enc : BchEncoder} {code : LdpcCode} {ro : Byte} {userData u : List Bool}
    (hmc : mc ∈ vlsnrModcodTable) (henc : bchEncoderInit mc = some (0, enc))
    (hcode : ldpcCodeInit mc = some code) (hu : u.length = mc.kBch)
    (hholds : FrameHolds mc.kBch (bbBuildHeader (gsContext mc ro) userData.length)
      (gsField (gsContext mc ro) userData) u) (hfits : userData.length ≤ mc.kBch - bbHeaderBits)
    {demod : Demodulator ℝ} (hdemod : Tuned demod goldIdx) {path : AirPath}
    (hclear : path.Clear demod mc) {noiseVar : ℝ} (hnoise : 0 ≤ noiseVar) (hnv : noiseVar ≤ 1000)
    (out : List Bool) (userCapacity : ℕ) :
    let call := demodulateSymbols (codeStages s) demod
      (path.carry (modFrame Sqrt2.exact mc goldIdx (txCoded mc enc code u))) noiseVar out userCapacity
    (call.ret, call.output, call.outputLen) = if userCapacity < userData.length then
      (errShort, out, userData.length) else (ok, memcpyAt out 0 userData, userData.length) := by
  intro call
  obtain ⟨-, hnormal, -⟩ := modcod_geometry mc hmc
  obtain ⟨hdelivered, hcall⟩ := demodulateBbframeSymbols_at s (φ := path.phase) hmc henc hcode hu
    hdemod hclear.aimed hclear.channel hclear.tail hclear.room hnoise hnv [] ldpcNormal
  rw [if_neg (not_lt.mpr hnormal), memcpyAt, List.take_nil, List.drop_nil, List.nil_append,
    List.append_nil] at hcall
  have hmodcod := hdelivered.modcod
  have hair : demodulateBbframeSymbols (codeStages s) demod
      (path.carry (modFrame Sqrt2.exact mc goldIdx (txCoded mc enc code u))) noiseVar [] ldpcNormal
      = demodulateBbframeSymbols (codeStages s) demod (onCarrier path.gain path.phase path.carrier
        (burst mc goldIdx (txCoded mc enc code u) path.lead path.tail)) noiseVar [] ldpcNormal := rfl
  show ((demodulateSymbols (codeStages s) demod _ noiseVar out userCapacity).ret, _, _) = _
  rw [show call = demodulateSymbols (codeStages s) demod
    (path.carry (modFrame Sqrt2.exact mc goldIdx (txCoded mc enc code u))) noiseVar out userCapacity
    from rfl, demodulateSymbols, hair]
  dsimp only
  generalize demodulateBbframeSymbols (codeStages s) demod _ noiseVar [] ldpcNormal = inner
    at hcall hmodcod ⊢
  obtain ⟨hret, houtput, hlen⟩ : inner.ret = ok ∧ inner.output = u ∧ inner.outputLen = mc.kBch := by
    simpa only [Prod.mk.injEq] using hcall
  rw [hret, if_neg (lt_irrefl 0), hmodcod]
  dsimp only
  rw [hlen, if_neg (not_not.mpr rfl), houtput,
    show bbFrameInit mc .gs = gsContext mc 0 from rfl, parse_gsFrame hmc ro hfits hholds]
  split
  · rfl
  · rfl

/-- **User data go through.**  Whatever calls modulator and receiver have answered before, the
receiver returns the user data that the modulator was given, or the room that they need. -/
theorem loopback_symbols {math : RrcMath ℝ} {modcodIdx : ℕ} {rolloff : ℝ} {sps goldIdx : ℕ}
    {mod₀ : Modulator ℝ} (hmod : modulatorInit math modcodIdx rolloff sps goldIdx = some (.ok mod₀))
    (modOps : List (ModOp ℝ)) {rolloff' : ℝ} {sps' : ℕ} {demod₀ : Demodulator ℝ}
    (hdemod : demodulatorInit rolloff' sps' goldIdx = .ok demod₀) (ops : List (DemodOp ℝ))
    (hops : ∀ op ∈ ops, op.uncancelled) {userData : List Bool}
    (hfits : userData.length ≤ mod₀.modcod.kBch - bbHeaderBits) (buf : List (Cplx ℝ)) {capacity : ℕ}
    (hcapacity : modFrameLen mod₀.modcod ≤ capacity) {path : AirPath}
    (hclear : path.Clear (demodRun demod₀ ops) mod₀.modcod) {noiseVar : ℝ} (hnoise : 0 ≤ noiseVar)
    (hnv : noiseVar ≤ 1000) (out : List Bool) (userCapacity : ℕ) :
    let sent := (modulateSymbols Sqrt2.exact (modRun Sqrt2.exact mod₀ modOps) userData
      userData.length buf capacity).2
    let call := demodulateSymbols (codeStages s) (demodRun demod₀ ops)
      (path.carry (sent.symbols.take sent.symLen)) noiseVar out userCapacity
    sent.ret = ok ∧
      (call.ret, call.output, call.outputLen) = if userCapacity < userData.length then
        (errShort, out, userData.length) else (ok, memcpyAt out 0 userData, userData.length) := by
  intro sent call
  set mc := mod₀.modcod with hmcdef
  obtain ⟨hready, hbb, -, hgold⟩ := modulatorInit_ready hmod
  have hmc : mc ∈ vlsnrModcodTable := hready.mem
  obtain ⟨hrun, halike⟩ := modRun_inv Sqrt2.exact modOps hready (.refl mod₀)
  obtain ⟨-, hnormal, -⟩ := modcod_geometry mc hmc
  -- the BBFRAME of the call
  have hctx : { mod₀.bbCtx with ro := roFromRolloff mod₀.rolloff }
      = gsContext mc (roFromRolloff mod₀.rolloff) := by
    rw [hbb]
    rfl
  have hdfl := gsContext_dfl hmc (roFromRolloff mod₀.rolloff)
  obtain ⟨-, hholds⟩ := bbFrameBuild_holds
    (show (gsContext mc (roFromRolloff mod₀.rolloff)).streamType = .gs from rfl)
    (gsContext_kBch hmc _) hnormal (hfits.trans hdfl.ge) []
  set u := modBbframe mod₀ userData userData.length with hu
  have hframe : FrameHolds mc.kBch (bbBuildHeader (gsContext mc (roFromRolloff mod₀.rolloff))
      userData.length) (gsField (gsContext mc (roFromRolloff mod₀.rolloff)) userData) u := by
    rw [hu, modBbframe, hctx]
    exact hholds
  have hlen : u.length = mc.kBch := by
    rw [hu, modBbframe, hctx]
    exact bbFrameBuild_length rfl (gsContext_kBch hmc _) (hfits.trans hdfl.ge)
  -- the call passes its checks and hands the BBFRAME on
  have hsent : sent = (modulateSymbols Sqrt2.exact (modRun Sqrt2.exact mod₀ modOps) userData
      userData.length buf capacity).2 := rfl
  rw [(hrun.symbols Sqrt2.exact userData userData.length buf capacity).2, halike.modcod, ← hmcdef,
    if_neg (not_lt.mpr hfits), if_neg (not_lt.mpr hcapacity), halike.frame, modUserFrame, ← hmcdef,
    ← hu, hgold] at hsent
  have hair : sent.symbols.take sent.symLen
      = modFrame Sqrt2.exact mc goldIdx (txCoded mc mod₀.bchEnc mod₀.ldpcEnc u) := by
    rw [hsent, memcpyAt, List.take_zero, List.nil_append, List.take_left' (modFrame_length _ hmc _ _)]
  refine ⟨by rw [hsent], ?_⟩
  have hcall := demodulateSymbols_at s hmc hready.bch hready.ldpc hlen hframe hfits
    (tuned_run hdemod ops hops) hclear hnoise hnv out userCapacity
  rw [← hair] at hcall
  exact hcall

/-- Three bits, after a change of the iteration limit. -/
theorem loopback_symbols_first : ∃ mod₀ : Modulator ℝ,
    modulatorInit RrcMath.exact 5 (1 / 5) 2 7 = some (.ok mod₀) ∧
      let userData := [true, false, true]
      let sent := (modulateSymbols Sqrt2.exact (modRun Sqrt2.exact mod₀ []) userData
        userData.length [] (modFrameLen mod₀.modcod)).2
      let demod := demodRun (freshDemodulator (1 / 5) 2 7) [.setMaxLdpcIterations 10]
      let call := demodulateSymbols (codeStages startSetup) demod
        (firstPath.carry (sent.symbols.take sent.symLen)) 0 [] userData.length
      (call.ret, call.output, call.outputLen) = (ok, userData, userData.length) := by
  obtain ⟨mod₀, hinit, hready, -⟩ := (modulatorInit_accepts RrcMath.exact 5 (1 / 5) 2 7).1
    ⟨by decide, by decide, by norm_num, by decide⟩
  have hfits : [true, false, true].length ≤ mod₀.modcod.kBch - bbHeaderBits := by
    obtain ⟨hlow, -⟩ := modcod_geometry mod₀.modcod hready.mem
    simp only [List.length_cons, List.length_nil, bbHeaderBits]
    omega
  have h := (loopback_symbols startSetup hinit [] demodulatorInit_real [.setMaxLdpcIterations 10]
    (by simp [DemodOp.uncancelled]) hfits [] le_rfl ((firstPath_acquirable _).clear rfl) le_rfl
    (by norm_num) [] [true, false, true].length).2
  rw [if_neg (lt_irrefl _), memcpyAt, List.take_nil, List.drop_nil, List.nil_append,
    List.append_nil] at h
  exact ⟨mod₀, hinit, h⟩

end OpenVlsnr
