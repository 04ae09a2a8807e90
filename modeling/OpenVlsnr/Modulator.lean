import OpenVlsnr.CarrierRecovery
import OpenVlsnr.FecChain
import OpenVlsnr.GoldSequence
import OpenVlsnr.GsFrame
import OpenVlsnr.PilotBlocks
import OpenVlsnr.PlHeader
import OpenVlsnr.RrcFilter

/-!
# The modulator (`modulator_top.c`)

`dvbs2x_modulate_bbframe_symbols_ex` puts a PL frame together: the PL header, the VL-SNR header and
the scrambled data field.  A successful initialisation leaves a context (`ModReady`) in which every
call gets to the end: the frame has the length of its set and fits the buffers of its callers, and
every symbol lies on the grid (`modFrame_grid`), headers and pilots where the receiver expects them
(`modFrame_header`, `modFrame_pilot`).
-/

namespace OpenVlsnr

section
variable {R : Type*} [Field R] [LinearOrder R] (const : Sqrt2 R)

/-! ### The context -/

/-- `struct dvbs2x_modulator`; the scrambler is represented by its index, because every call resets
it. -/
structure Modulator (R : Type*) where
  modcod : Modcod
  rolloff : R
  sps : ℕ
  plScramblingIdx : ℕ
  bbCtx : BbFrameCtx
  bchEnc : BchEncoder
  ldpcEnc : LdpcCode
  txFilter : RrcFilter R

/-- The filter of a cleared context. -/
def rrcFilterZero : RrcFilter R where
  coeffs := List.replicate filterMaxTaps 0
  delayI := List.replicate (filterMaxTaps * 2) 0
  delayQ := List.replicate (filterMaxTaps * 2) 0
  numTaps := 0
  sps := 0
  rolloff := 0
  delayIdx := 0

/-- `dvbs2x_modulator_init`; `none` is a BCH generator that does not end. -/
def modulatorInit (math : RrcMath R) (modcodIdx : ℕ) (rolloff : R) (sps plScramblingIdx : ℕ) :
    Option (Except ℤ (Modulator R)) :=
  match vlsnrGetModcod modcodIdx with
  | none => some (.error errParam)
  | some mc =>
    if sps < 2 ∨ rolloff < 1 / 20 ∨ rolloff > 7 / 20 ∨ plScramblingIdx > goldCodeMax then
      some (.error errParam)
    else
      match bchEncoderInit mc with
      | none => none
      | some (ret, bchEnc) =>
        if ret < 0 then some (.error errParam)
        else
          match ldpcCodeInit mc with
          | none => some (.error errParam)
          | some code =>
            let flt := rrcFilterInit math rrcFilterZero rolloff sps filterSpan
            if flt.1 < 0 then some (.error errParam)
            else
              some (.ok
                { modcod := mc
                  rolloff := rolloff
                  sps := sps
                  plScramblingIdx := plScramblingIdx
                  bbCtx := bbFrameInit mc .gs
                  bchEnc := bchEnc
                  ldpcEnc := code
                  txFilter := flt.2 })

/-! ### The frame -/

/-- `chips` of `dvbs2x_vlsnr_header_generate`. -/
def vlsnrHeaderChips (mc : Modcod) : List ℤ :=
  [1, 1] ++ vlsnrGeneratePattern (modcodToAnnexI.getD (mc.index - 1) 0) ++ [1, 1]

/-- `dvbs2x_vlsnr_header_generate`. -/
def vlsnrHeaderGenerate (mc : Modcod) : List (Cplx R) :=
  if mc.index < 1 ∨ vlsnrNumModcods < mc.index then []
  else chipsToSymbols const (vlsnrHeaderChips mc) vlsnrHdrLen 0

/-- What a call returns: the buffer and `*sym_len`. -/
structure ModCall (R : Type*) where
  ret : ℤ
  symbols : List (Cplx R)
  symLen : ℕ

/-- `dvbs2x_modulate_bbframe_symbols_ex`. -/
def modulateBbframeSymbols (mod : Modulator R) (bbframe : List Bool) (symbols : List (Cplx R))
    (symbolCapacity : ℕ) : ModCall R :=
  let mc := mod.modcod
  let txBits := txCoded mc mod.bchEnc mod.ldpcEnc bbframe
  match plTransmit const mc mod.plScramblingIdx txBits with
  | none => ⟨errParam, symbols, 0⟩
  | some field =>
    let symLen := plheaderLen + vlsnrHdrLen + (buildLayout mc).fieldLen
    if symbolCapacity < symLen then ⟨errShort, symbols, symLen⟩
    else
      let symbols := memcpyAt symbols 0 (plheaderGenerate const mc.plsCode)
      let symbols := memcpyAt symbols plheaderLen (vlsnrHeaderGenerate const mc)
      ⟨ok, memcpyAt symbols (plheaderLen + vlsnrHdrLen) field, symLen⟩

/-- `dvbs2x_ro_from_rolloff`. -/
def roFromRolloff (rolloff : R) : Byte :=
  if rolloff ≤ 9 / 40 then 2 else if rolloff ≤ 3 / 10 then 1 else 0

/-- `dvbs2x_modulate_symbols_ex`: the context and the result. -/
def modulateSymbols (mod : Modulator R) (userData : List Bool) (userLen : ℕ)
    (symbols : List (Cplx R)) (symbolCapacity : ℕ) : Modulator R × ModCall R :=
  if userLen > mod.bbCtx.dfl then (mod, ⟨errParam, symbols, 0⟩)
  else
    let mod := { mod with bbCtx := { mod.bbCtx with ro := roFromRolloff mod.rolloff } }
    let build := bbFrameBuild mod.bbCtx userData userLen []
    if build.1 < 0 then (mod, ⟨build.1, symbols, 0⟩)
    else (mod, modulateBbframeSymbols const mod build.2 symbols symbolCapacity)

/-- `dvbs2x_modulate_ex`. -/
def modulate (mod : Modulator R) (userData : List Bool) (userLen : ℕ) (output : List (Cplx R))
    (outputCapacity : ℕ) : Modulator R × ModCall R :=
  if userLen > mod.bbCtx.dfl then (mod, ⟨errParam, output, 0⟩)
  else
    let frameCap := plheaderLen + vlsnrHdrLen + txCodedBits mod.modcod * 2
      + txCodedBits mod.modcod / 2 + 128
    let r := modulateSymbols const mod userData userLen [] frameCap
    let mod := r.1
    let frame := r.2
    if frame.ret < 0 then (mod, ⟨frame.ret, output, 0⟩)
    else if frame.symLen > uintMax / mod.sps then (mod, ⟨errParam, output, 0⟩)
    else if outputCapacity < frame.symLen * mod.sps then
      (mod, ⟨errShort, output, frame.symLen * mod.sps⟩)
    else
      let up := rrcUpsample (rrcFilterReset mod.txFilter) (frame.symbols.take frame.symLen)
      ({ mod with txFilter := up.1 }, ⟨ok, memcpyAt output 0 up.2, up.2.length⟩)

/-! ### Frames -/

/-- The PL frame of a MODCOD for coded bits. -/
def modFrame (mc : Modcod) (goldIdx : ℕ) (bits : List Bool) : List (Cplx R) :=
  plheaderGenerate const mc.plsCode ++ (vlsnrHeaderGenerate const mc ++
    (scrambleField (scramblerSeek (scramblerReset (scramblerInit goldIdx)) vlsnrHdrLen)
      (pilotInsert const (plSymbols const mc bits) (buildLayout mc)) (buildLayout mc).isPilot
      (mc.modulation = .qpsk)).1)

/-- The frame lengths of the two sets. -/
def modFrameLen (mc : Modcod) : ℕ := if mc.set = .set1 then vlsnrFrameLong else vlsnrFrameShort

theorem plheaderGenerate_length (plsCode : ℕ) :
    (plheaderGenerate const plsCode).length = plheaderLen := by
  simp [plheaderGenerate]

/-- What the index of a row says. -/
theorem modcod_headers : ∀ mc ∈ vlsnrModcodTable, 1 ≤ mc.index ∧ mc.index ≤ vlsnrNumModcods ∧
    mc.plsCode.testBit 7 = true := by
  decide

variable {mc : Modcod} (hmc : mc ∈ vlsnrModcodTable)
include hmc

theorem vlsnrHeaderGenerate_eq : vlsnrHeaderGenerate const mc
    = chipsToSymbols const (vlsnrHeaderChips mc) vlsnrHdrLen 0 := by
  obtain ⟨hlow, hhigh, -⟩ := modcod_headers mc hmc
  rw [vlsnrHeaderGenerate, if_neg (by omega)]

theorem vlsnrHeaderGenerate_length : (vlsnrHeaderGenerate const mc).length = vlsnrHdrLen := by
  rw [vlsnrHeaderGenerate_eq const hmc, chipsToSymbols, List.length_map, List.length_range]

theorem scrambledField_length (goldIdx : ℕ) (bits : List Bool) :
    (scrambleField (scramblerSeek (scramblerReset (scramblerInit goldIdx)) vlsnrHdrLen)
      (pilotInsert const (plSymbols const mc bits) (buildLayout mc)) (buildLayout mc).isPilot
      (mc.modulation = .qpsk)).1.length = (buildLayout mc).fieldLen := by
  obtain ⟨-, -, hmap, -⟩ := modcod_layout mc hmc
  rw [scrambleField_length, pilotInsert, pilotInsertFrom_length, hmap]

theorem modFrameLen_eq :
    modFrameLen mc = plheaderLen + vlsnrHdrLen + (buildLayout mc).fieldLen := by
  obtain ⟨-, -, -, hlen⟩ := modcod_layout mc hmc
  exact hlen.symm

theorem modFrame_length (goldIdx : ℕ) (bits : List Bool) :
    (modFrame const mc goldIdx bits).length = modFrameLen mc := by
  rw [modFrame, List.length_append, List.length_append, plheaderGenerate_length,
    vlsnrHeaderGenerate_length const hmc, scrambledField_length const hmc, modFrameLen_eq hmc,
    Nat.add_assoc]

/-- **The frame that a call writes.** -/
theorem modulateBbframeSymbols_eq {mod : Modulator R} (hmod : mod.modcod = mc)
    (bbframe : List Bool) (symbols : List (Cplx R)) (capacity : ℕ) :
    modulateBbframeSymbols const mod bbframe symbols capacity =
      if capacity < modFrameLen mc then ⟨errShort, symbols, modFrameLen mc⟩
      else ⟨ok, memcpyAt symbols 0 (modFrame const mc mod.plScramblingIdx
        (txCoded mc mod.bchEnc mod.ldpcEnc bbframe)), modFrameLen mc⟩ := by
  subst hmod
  rw [modulateBbframeSymbols]
  dsimp only
  rw [plTransmit_eq const hmc]
  dsimp only
  rw [← modFrameLen_eq hmc]
  split
  · rfl
  · -- three copies, each right behind the one before
    refine congrArg (ModCall.mk ok · _) ?_
    have hfirst : memcpyAt symbols 0 (plheaderGenerate const mod.modcod.plsCode)
        = plheaderGenerate const mod.modcod.plsCode ++ symbols.drop plheaderLen := by
      rw [memcpyAt, List.take_zero, List.nil_append, Nat.zero_add, plheaderGenerate_length]
    rw [hfirst, memcpyAt_behind _ _ _ (plheaderGenerate_length const _), memcpyAt_behind _ _ _
      (by rw [List.length_append, plheaderGenerate_length, vlsnrHeaderGenerate_length const hmc]),
      memcpyAt, List.take_zero, List.nil_append, Nat.zero_add, modFrame_length const hmc, modFrame,
      vlsnrHeaderGenerate_length const hmc, scrambledField_length const hmc, List.drop_drop,
      List.drop_drop, modFrameLen_eq hmc]
    simp only [List.append_assoc, Nat.add_assoc]

end

/-! ### The symbols of a frame -/

section
variable {R : Type*} [Field R] [LinearOrder R] (const : Sqrt2 R)

/-- A symbol on one of the diagonals. -/
def Diagonal (s : Cplx R) : Prop :=
  (s.i = const.half ∨ s.i = -const.half) ∧ (s.q = const.half ∨ s.q = -const.half)

theorem diagonal_pilot : Diagonal const const.pilot := ⟨.inl rfl, .inl rfl⟩

theorem diagonal_pi2bpsk (n : ℕ) (b : Bool) : Diagonal const (pi2bpskSymbol const n b) := by
  rw [pi2bpskSymbol]
  split <;> cases b <;> simp [Diagonal]

theorem diagonal_plConst (phase : ℕ) (b : Bool) : Diagonal const (plConst const phase b) := by
  rw [plConst.eq_def]
  split <;> cases b <;> simp [Diagonal]

theorem Diagonal.neg {s : Cplx R} (h : Diagonal const s) : Diagonal const ⟨-s.i, -s.q⟩ := by
  obtain ⟨hi | hi, hq | hq⟩ := h <;> simp [Diagonal, hi, hq]

/-- Scrambling turns the grid onto itself. -/
theorem Diagonal.scramble {s : Cplx R} (h : Diagonal const s) (fourPhase : Bool) (rn : ℕ) :
    Diagonal const (scrambleSymbol fourPhase rn s) := by
  obtain ⟨hi, hq⟩ := h
  have hneg : ∀ {a : R}, a = const.half ∨ a = -const.half → -a = const.half ∨ -a = -const.half := by
    rintro a (rfl | rfl) <;> simp
  rw [scrambleSymbol]
  split
  · rw [rotFwd.eq_def]
    split
    · exact ⟨hneg hq, hi⟩
    · exact ⟨hneg hi, hneg hq⟩
    · exact ⟨hq, hneg hi⟩
    · exact ⟨hi, hq⟩
  · split
    · exact ⟨hneg hi, hneg hq⟩
    · exact ⟨hi, hq⟩

theorem diagonal_plSymbols (mc : Modcod) (bits : List Bool) :
    ∀ s ∈ plSymbols const mc bits, Diagonal const s := by
  have hbpsk : ∀ (bits : List Bool) (len : ℕ), ∀ s ∈ modPi2bpsk const bits len,
      Diagonal const s := by
    intro bits len s hs
    obtain ⟨n, -, rfl⟩ := List.mem_map.mp hs
    exact diagonal_pi2bpsk const n _
  rw [plSymbols]
  split
  · intro s hs
    obtain ⟨n, -, rfl⟩ := List.mem_map.mp hs
    dsimp only
    split <;> split <;> simp [Diagonal]
  · split
    · exact hbpsk _ _
    · exact hbpsk _ _

/-- The field before it is scrambled. -/
theorem pilotInsertFrom_getD (data : List (Cplx R)) (map : List Bool) (dataIdx : ℕ) {i : ℕ}
    (hi : i < map.length) :
    (pilotInsertFrom const data dataIdx map).getD i 0
      = if map.getD i false then const.pilot
        else data.getD (dataIdx + (map.take i).count false) 0 := by
  induction map generalizing dataIdx i with
  | nil => simp at hi
  | cons p map ih =>
    cases i with
    | zero => cases p <;> simp [pilotInsertFrom]
    | succ i =>
      have hi' : i < map.length := by simpa using hi
      cases p
      · simp only [pilotInsertFrom, List.getD_cons_succ, List.take_succ_cons, ih _ hi',
          List.count_cons_self]
        rw [show dataIdx + 1 + (map.take i).count false
          = dataIdx + ((map.take i).count false + 1) by omega]
      · simp only [pilotInsertFrom, List.getD_cons_succ, List.take_succ_cons, ih _ hi']
        rw [List.count_cons_of_ne (by decide)]

omit [LinearOrder R] in
/-- Entry `i` of a scrambled field. -/
theorem scrambleLoop_getD (f : Bool → ℕ → Cplx R → Cplx R) (isPilot : List Bool) (isQpsk : Bool)
    (symbols : List (Cplx R)) (n : ℕ) (scr : Scrambler) {i : ℕ} (hi : i < symbols.length) :
    (scrambleLoop f isPilot isQpsk n scr symbols).1.getD i 0
      = f (isQpsk || isPilot.getD (n + i) false) (scramblerNextRn (scramblerSeek scr i)).1
        (symbols.getD i 0) := by
  induction symbols generalizing n scr i with
  | nil => simp at hi
  | cons s symbols ih =>
    cases i with
    | zero => simp [scrambleLoop, scramblerSeek]
    | succ i =>
      have hseek : scramblerSeek scr (i + 1) = scramblerSeek (scramblerNextRn scr).2 i := by
        rw [scramblerSeek, List.range_succ_eq_map, List.foldl_cons, List.foldl_map]
        rfl
      rw [scrambleLoop]
      dsimp only
      rw [List.getD_cons_succ, ih _ _ (by simpa using hi), hseek, List.getD_cons_succ,
        show n + 1 + i = n + (i + 1) by omega]

end

/-- The diagonals of length one are the grid. -/
theorem Diagonal.onGrid {s : Cplx ℝ} (h : Diagonal Sqrt2.exact s) : OnGrid s := by
  have hhalf : Sqrt2.exact.half * Sqrt2.exact.half = 1 / 2 := by
    show (√2)⁻¹ * (√2)⁻¹ = (1 : ℝ) / 2
    rw [← mul_inv, Real.mul_self_sqrt (by norm_num)]
    norm_num
  have hsq : ∀ {a : ℝ}, a = Sqrt2.exact.half ∨ a = -Sqrt2.exact.half → a * a = 1 / 2 := by
    rintro a (rfl | rfl)
    · exact hhalf
    · rw [neg_mul_neg, hhalf]
  have hi := hsq h.1
  have hq := hsq h.2
  rw [OnGrid, show s ^ 4 = s * s * (s * s) by ring]
  ext
  · simp only [Cplx.mul_i, Cplx.mul_q, Cplx.neg_i, Cplx.one_i]
    rw [hi, hq]
    linear_combination (-4 * s.q * s.q) * hi - 2 * hq
  · simp only [Cplx.mul_i, Cplx.mul_q, Cplx.neg_q, Cplx.one_q]
    rw [hi, hq]
    ring

section
variable {mc : Modcod} (hmc : mc ∈ vlsnrModcodTable) (goldIdx : ℕ) (bits : List Bool)
include hmc

/-- The parts of a frame. -/
theorem modFrame_getD {R : Type*} [Field R] [LinearOrder R] (const : Sqrt2 R) (k : ℕ) :
    (modFrame const mc goldIdx bits).getD k 0 =
      if k < 90 then (plheaderGenerate const mc.plsCode).getD k 0
      else if k < 990 then (vlsnrHeaderGenerate const mc).getD (k - 90) 0
      else (scrambleField (scramblerSeek (scramblerReset (scramblerInit goldIdx)) vlsnrHdrLen)
        (pilotInsert const (plSymbols const mc bits) (buildLayout mc)) (buildLayout mc).isPilot
        (mc.modulation = .qpsk)).1.getD (k - 990) 0 := by
  have hpl : (plheaderGenerate const mc.plsCode).length = 90 := plheaderGenerate_length const _
  have hhdr : (vlsnrHeaderGenerate const mc).length = 900 := vlsnrHeaderGenerate_length const hmc
  rw [modFrame]
  split
  · rw [List.getD_append _ _ _ _ (by omega)]
  · rw [List.getD_append_right _ _ _ _ (by omega), hpl]
    split
    · rw [List.getD_append _ _ _ _ (by omega)]
    · rw [List.getD_append_right _ _ _ _ (by omega), hhdr,
        show k - 90 - 900 = k - 990 by omega]

/-- **Every symbol is on a diagonal.** -/
theorem modFrame_diagonal {R : Type*} [Field R] [LinearOrder R] (const : Sqrt2 R) :
    ∀ s ∈ modFrame const mc goldIdx bits, Diagonal const s := by
  intro s hs
  obtain ⟨hcount, -, hmap, -⟩ := modcod_layout mc hmc
  rw [modFrame] at hs
  rcases List.mem_append.mp hs with hs | hs
  · obtain ⟨n, -, rfl⟩ := List.mem_map.mp hs
    exact diagonal_plConst _ _ _
  rcases List.mem_append.mp hs with hs | hs
  · rw [vlsnrHeaderGenerate_eq _ hmc] at hs
    obtain ⟨n, -, rfl⟩ := List.mem_map.mp hs
    exact diagonal_pi2bpsk _ _ _
  · obtain ⟨i, hi, rfl⟩ := List.getElem_of_mem hs
    have hi' : i < (buildLayout mc).isPilot.length := by
      rwa [scrambledField_length _ hmc, ← hmap] at hi
    have hlen : i < (pilotInsert const (plSymbols const mc bits)
        (buildLayout mc)).length := by
      rwa [pilotInsert, pilotInsertFrom_length]
    rw [← List.getD_eq_getElem _ 0 hi, scrambleField, scrambleLoop_getD _ _ _ _ _ _ hlen]
    refine Diagonal.scramble _ ?_ _ _
    rw [pilotInsert, pilotInsertFrom_getD _ _ _ _ hi']
    split
    · exact diagonal_pilot _
    · -- the payload lasts for the whole map
      rename_i hdata
      have hidx : 0 + ((buildLayout mc).isPilot.take i).count false
          < (plSymbols const mc bits).length := by
        rw [plSymbols_length _ hmc]
        have hsplit := List.take_append_drop i (buildLayout mc).isPilot
        have hnext : 0 < ((buildLayout mc).isPilot.drop i).count false := by
          refine List.count_pos_iff.mpr ?_
          rw [List.getD_eq_getElem _ _ hi', Bool.not_eq_true] at hdata
          rw [← hdata]
          exact List.mem_of_getElem (i := 0) (by simp) (h := by simpa using hi')
        have htotal := congrArg (List.count false) hsplit
        rw [List.count_append, hcount] at htotal
        have hnum : (buildLayout mc).numData = layoutData mc := rfl
        omega
      rw [List.getD_eq_getElem _ _ hidx]
      exact diagonal_plSymbols _ _ _ _ (List.getElem_mem hidx)

theorem modFrame_grid : ∀ s ∈ modFrame Sqrt2.exact mc goldIdx bits, OnGrid s :=
  fun s hs => (modFrame_diagonal hmc goldIdx bits Sqrt2.exact s hs).onGrid

/-- **Where the header is.** -/
theorem modFrame_header {R : Type*} [Field R] [LinearOrder R] (const : Sqrt2 R) {n : ℕ}
    (hn : n < vlsnrWhLen) :
    (modFrame const mc goldIdx bits).getD (92 + n) 0
      = ((vlsnrReferences const).getD (mc.index - 1) []).getD n 0 := by
  obtain ⟨hlow, hhigh, -⟩ := modcod_headers mc hmc
  have hwh : vlsnrWhLen = 896 := rfl
  have hhdr : vlsnrHdrLen = 900 := rfl
  have hpattern : ∀ annex, (vlsnrGeneratePattern annex).length = vlsnrWhLen := by
    intro annex
    simp [vlsnrGeneratePattern]
    rfl
  have hchip : (vlsnrHeaderChips mc).getD (2 + n) 0
      = (vlsnrGeneratePattern (modcodToAnnexI.getD (mc.index - 1) 0)).getD n 0 := by
    rw [vlsnrHeaderChips, List.append_assoc, List.getD_append_right _ _ _ _ (by simp),
      List.getD_append _ _ _ _ (by rw [hpattern]; simpa using hn)]
    simp
  have href : (vlsnrReferences const).getD (mc.index - 1) []
      = chipsToSymbols const (vlsnrGeneratePattern (modcodToAnnexI.getD (mc.index - 1) 0))
        vlsnrWhLen 0 := by
    rw [vlsnrReferences, getD_map_range, if_pos (by omega)]
  rw [modFrame_getD hmc, if_neg (by omega), if_pos (by omega), vlsnrHeaderGenerate_eq _ hmc, href,
    show 92 + n - 90 = 2 + n by omega, chipsToSymbols, chipsToSymbols, getD_map_range,
    if_pos (by omega), getD_map_range, if_pos hn, hchip, pi2bpskSymbol, pi2bpskSymbol,
    show (0 + (2 + n)) % 2 = (0 + n) % 2 by omega]

/-- **Where the pilots are**, and how the scrambler turns them. -/
theorem modFrame_pilot {R : Type*} [Field R] [LinearOrder R] (const : Sqrt2 R) {b : ℕ × ℕ}
    (hb : b ∈ pilotBlocks (buildLayout mc)) {n : ℕ} (hn : n < b.2) :
    (modFrame const mc goldIdx bits).getD (990 + (b.1 + n)) 0
      = rotFwd const.pilot
        (2 * (goldX (900 + (b.1 + n) + goldIdx + 131072) + goldY (900 + (b.1 + n) + 131072)).val
          + (goldX (900 + (b.1 + n) + goldIdx) + goldY (900 + (b.1 + n))).val) := by
  have hpilot := pilotBlocks_isPilot hb hn
  have hi : b.1 + n < (buildLayout mc).isPilot.length := by
    by_contra hout
    rw [List.getD_eq_default _ _ (by omega)] at hpilot
    exact absurd hpilot (by simp)
  have hseek : ScramblerAt goldIdx (900 + (b.1 + n))
      (scramblerSeek (scramblerSeek (scramblerReset (scramblerInit goldIdx)) vlsnrHdrLen)
        (b.1 + n)) := by
    have hhdr : vlsnrHdrLen = 900 := rfl
    have hreset : scramblerReset (scramblerInit goldIdx) = scramblerInit goldIdx := rfl
    have h := ((ScramblerAt.init goldIdx).seek 900).seek (b.1 + n)
    rw [hhdr, hreset]
    rwa [Nat.zero_add] at h
  rw [modFrame_getD hmc, if_neg (by omega), if_neg (by omega), Nat.add_sub_cancel_left,
    scrambleField, scrambleLoop_getD _ _ _ _ _ _ (by rwa [pilotInsert, pilotInsertFrom_length]),
    Nat.zero_add, hpilot, Bool.or_true, pilotInsert, pilotInsertFrom_getD _ _ _ _ hi,
    if_pos hpilot, (scramblerNextRn_spec hseek).1]
  exact if_pos rfl

end

/-! ### Calls -/

section
variable {R : Type*} [Field R] [LinearOrder R]

/-- A context that a successful initialisation leaves, and every call after it. -/
structure ModReady (mod : Modulator R) : Prop where
  mem : mod.modcod ∈ vlsnrModcodTable
  sps_le : mod.sps ≤ 7
  stream : mod.bbCtx.streamType = .gs
  dfl : mod.bbCtx.dfl = mod.modcod.kBch - bbHeaderBits
  kBch : mod.bbCtx.kBch = mod.modcod.kBch
  bch : bchEncoderInit mod.modcod = some (0, mod.bchEnc)
  ldpc : ldpcCodeInit mod.modcod = some mod.ldpcEnc
  filter : RrcReady mod.txFilter mod.sps filterSpan

/-- The rates whose taps fit. -/
theorem rrcAdmits_filterSpan (sps : ℕ) : RrcAdmits sps filterSpan ↔ 2 ≤ sps ∧ sps ≤ 7 := by
  have hspan : filterSpan ≠ 0 := by decide
  constructor
  · rintro ⟨hlow, -, hhigh⟩
    refine ⟨hlow, ?_⟩
    have hmul : 16 * sps ≤ 127 := (Nat.le_div_iff_mul_le (by omega)).mp hhigh
    omega
  · rintro ⟨hlow, hhigh⟩
    have hmul : 16 * sps ≤ 127 := by omega
    exact ⟨hlow, hspan, (Nat.le_div_iff_mul_le (by omega)).mpr hmul⟩

variable [IsStrictOrderedRing R]

/-- **What `dvbs2x_modulator_init` accepts**, and the context that it leaves. -/
theorem modulatorInit_accepts (math : RrcMath R) (modcodIdx : ℕ) (rolloff : R)
    (sps plScramblingIdx : ℕ) :
    ((1 ≤ modcodIdx ∧ modcodIdx ≤ 9) ∧ (2 ≤ sps ∧ sps ≤ 7) ∧ (1 / 20 ≤ rolloff ∧ rolloff ≤ 7 / 20) ∧
      plScramblingIdx ≤ goldCodeMax →
      ∃ mod, modulatorInit math modcodIdx rolloff sps plScramblingIdx = some (.ok mod) ∧
        ModReady mod ∧ mod.bbCtx = bbFrameInit mod.modcod .gs ∧ mod.modcod.index = modcodIdx ∧
        mod.rolloff = rolloff ∧ mod.sps = sps ∧ mod.plScramblingIdx = plScramblingIdx) ∧
    (¬((1 ≤ modcodIdx ∧ modcodIdx ≤ 9) ∧ (2 ≤ sps ∧ sps ≤ 7) ∧
        (1 / 20 ≤ rolloff ∧ rolloff ≤ 7 / 20) ∧ plScramblingIdx ≤ goldCodeMax) →
      modulatorInit math modcodIdx rolloff sps plScramblingIdx = some (.error errParam)) := by
  have hrow : ∀ idx, 1 ≤ idx → idx ≤ 9 → ∃ mc, vlsnrGetModcod idx = some mc ∧ mc.index = idx := by
    intro idx hlow hhigh
    interval_cases idx <;> exact ⟨_, rfl, rfl⟩
  constructor
  · rintro ⟨⟨hlow, hhigh⟩, hsps, ⟨hro, hro'⟩, hgold⟩
    obtain ⟨mc, hget, hidx⟩ := hrow modcodIdx hlow hhigh
    have hmc := vlsnrGetModcod_mem hget
    obtain ⟨code, hcode, -⟩ := modcod_ldpcCode mc hmc
    obtain ⟨enc, α, hs⟩ := bchSetup hmc
    have hfilter : ∃ flt, rrcFilterInit math rrcFilterZero rolloff sps filterSpan = (0, flt) := by
      have hadmits := (rrcAdmits_filterSpan sps).mpr hsps
      rw [rrcFilterInit, if_neg (by
        rintro (h | h | h)
        · exact h hadmits
        · exact absurd h (not_lt.mpr hro)
        · exact absurd h (not_lt.mpr hro'))]
      dsimp only
      rw [if_neg (not_lt.mpr hadmits.numTaps_le)]
      exact ⟨_, rfl⟩
    obtain ⟨flt, hflt⟩ := hfilter
    have hready := (rrcFilterInit_ready math hflt).1
    have hrange : ¬(sps < 2 ∨ rolloff < 1 / 20 ∨ rolloff > 7 / 20 ∨ plScramblingIdx > goldCodeMax) := by
      rintro (h | h | h | h)
      · omega
      · exact absurd h (not_lt.mpr hro)
      · exact absurd h (not_lt.mpr hro')
      · omega
    refine ⟨{ modcod := mc, rolloff := rolloff, sps := sps, plScramblingIdx := plScramblingIdx,
              bbCtx := bbFrameInit mc .gs, bchEnc := enc, ldpcEnc := code, txFilter := flt }, ?_,
      ⟨hmc, hsps.2, rfl, gsContext_dfl hmc 0, rfl, hs.init, hcode, hready⟩, rfl, hidx, rfl, rfl, rfl⟩
    rw [modulatorInit, hget]
    dsimp only
    rw [if_neg hrange, hs.init]
    dsimp only
    rw [if_neg (lt_irrefl 0), hcode]
    dsimp only
    rw [hflt]
    dsimp only
    rw [if_neg (lt_irrefl 0)]
  · intro hreject
    rw [modulatorInit]
    split
    · rfl
    · rename_i mc hget
      have hmc := vlsnrGetModcod_mem hget
      split
      · rfl
      · -- only the rate is left to reject
        rename_i hrange
        push Not at hrange
        obtain ⟨code, hcode, -⟩ := modcod_ldpcCode mc hmc
        obtain ⟨enc, α, hs⟩ := bchSetup hmc
        have hidx : 1 ≤ modcodIdx ∧ modcodIdx ≤ 9 := by
          by_contra hout
          rw [vlsnrGetModcod, if_pos (by omega)] at hget
          cases hget
        have hsps : ¬RrcAdmits sps filterSpan := fun h =>
          hreject ⟨hidx, (rrcAdmits_filterSpan sps).mp h, ⟨hrange.2.1, hrange.2.2.1⟩,
            hrange.2.2.2⟩
        have hfilter : rrcFilterInit math rrcFilterZero rolloff sps filterSpan
            = (-1, rrcFilterZero) := if_pos (Or.inl hsps)
        rw [hs.init]
        dsimp only
        rw [if_neg (lt_irrefl 0), hcode]
        dsimp only
        rw [hfilter]
        dsimp only
        rw [if_pos (by decide)]

theorem modulatorInit_ready {math : RrcMath R} {modcodIdx : ℕ} {rolloff : R}
    {sps plScramblingIdx : ℕ} {mod : Modulator R}
    (hinit : modulatorInit math modcodIdx rolloff sps plScramblingIdx = some (.ok mod)) :
    ModReady mod ∧ mod.bbCtx = bbFrameInit mod.modcod .gs ∧ mod.sps = sps ∧
      mod.plScramblingIdx = plScramblingIdx := by
  obtain ⟨haccept, hreject⟩ := modulatorInit_accepts math modcodIdx rolloff sps plScramblingIdx
  by_cases hok : (1 ≤ modcodIdx ∧ modcodIdx ≤ 9) ∧ (2 ≤ sps ∧ sps ≤ 7) ∧
      (1 / 20 ≤ rolloff ∧ rolloff ≤ 7 / 20) ∧ plScramblingIdx ≤ goldCodeMax
  · obtain ⟨mod', hmod, hready, hbb, -, -, hsps, hgold⟩ := haccept hok
    obtain rfl := Except.ok.inj (Option.some.inj (hinit.symm.trans hmod))
    exact ⟨hready, hbb, hsps, hgold⟩
  · cases Option.some.inj (hinit.symm.trans (hreject hok))

variable (const : Sqrt2 R) {mod : Modulator R}

/-- The BBFRAME of a call. -/
def modBbframe (mod : Modulator R) (userData : List Bool) (userLen : ℕ) : List Bool :=
  (bbFrameBuild { mod.bbCtx with ro := roFromRolloff mod.rolloff } userData userLen []).2

/-- The frame of a call. -/
def modUserFrame (mod : Modulator R) (userData : List Bool) (userLen : ℕ) : List (Cplx R) :=
  modFrame const mod.modcod mod.plScramblingIdx
    (txCoded mod.modcod mod.bchEnc mod.ldpcEnc (modBbframe mod userData userLen))

omit [LinearOrder R] [IsStrictOrderedRing R] in
theorem ModReady.withRo (h : ModReady mod) (ro : Byte) :
    ModReady { mod with bbCtx := { mod.bbCtx with ro := ro } } :=
  ⟨h.mem, h.sps_le, h.stream, h.dfl, h.kBch, h.bch, h.ldpc, h.filter⟩

omit [IsStrictOrderedRing R] in
/-- **One symbol-rate call.** -/
theorem ModReady.symbols (h : ModReady mod) (userData : List Bool) (userLen : ℕ)
    (symbols : List (Cplx R)) (capacity : ℕ) :
    ModReady (modulateSymbols const mod userData userLen symbols capacity).1 ∧
    (modulateSymbols const mod userData userLen symbols capacity).2 =
      if userLen > mod.modcod.kBch - bbHeaderBits then ⟨errParam, symbols, 0⟩
      else if capacity < modFrameLen mod.modcod then ⟨errShort, symbols, modFrameLen mod.modcod⟩
      else ⟨ok, memcpyAt symbols 0 (modUserFrame const mod userData userLen),
        modFrameLen mod.modcod⟩ := by
  rw [modulateSymbols, h.dfl]
  by_cases hlong : userLen > mod.modcod.kBch - bbHeaderBits
  · rw [if_pos hlong, if_pos hlong]
    exact ⟨h, rfl⟩
  · have hbuild : (bbFrameBuild { mod.bbCtx with ro := roFromRolloff mod.rolloff } userData userLen
        []).1 = ok := by
      rw [bbFrameBuild, if_neg]
      rintro (hstream | hdfl)
      · exact hstream h.stream
      · exact hlong (h.dfl ▸ hdfl)
    rw [if_neg hlong, if_neg hlong]
    dsimp only
    rw [hbuild, if_neg (lt_irrefl 0)]
    refine ⟨h.withRo _, ?_⟩
    exact modulateBbframeSymbols_eq const h.mem rfl _ symbols capacity

omit [LinearOrder R] [IsStrictOrderedRing R] in
theorem zeroStuff_length (sps : ℕ) (input : List (Cplx R)) :
    (zeroStuff sps input).length = input.length * sps := by
  induction input with
  | nil => simp [zeroStuff]
  | cons x input ih =>
    rw [zeroStuff, List.flatMap_cons, List.length_append, ← zeroStuff, ih, List.length_map,
      List.length_range, List.length_cons]
    ring

omit [IsStrictOrderedRing R] in
/-- **One call**: what comes out is the frame, shaped by the taps. -/
theorem ModReady.modulate (h : ModReady mod) (userData : List Bool) (userLen : ℕ)
    (output : List (Cplx R)) (capacity : ℕ) :
    ModReady (OpenVlsnr.modulate const mod userData userLen output capacity).1 ∧
    (OpenVlsnr.modulate const mod userData userLen output capacity).2 =
      if userLen > mod.modcod.kBch - bbHeaderBits then ⟨errParam, output, 0⟩
      else if capacity < modFrameLen mod.modcod * mod.sps then
        ⟨errShort, output, modFrameLen mod.modcod * mod.sps⟩
      else
        ⟨ok, memcpyAt output 0 ((List.range (modFrameLen mod.modcod * mod.sps)).map
          (firOutput mod.txFilter.coeffs mod.txFilter.numTaps
            (zeroStuff mod.sps (modUserFrame const mod userData userLen)))),
          modFrameLen mod.modcod * mod.sps⟩ := by
  have hcap : ∀ mc ∈ vlsnrModcodTable, ¬ plheaderLen + vlsnrHdrLen + txCodedBits mc * 2
      + txCodedBits mc / 2 + 128 < modFrameLen mc := by decide
  have hmax : ∀ mc ∈ vlsnrModcodTable, modFrameLen mc * 7 ≤ uintMax := by decide
  obtain ⟨hready, hcall⟩ := h.symbols const userData userLen []
    (plheaderLen + vlsnrHdrLen + txCodedBits mod.modcod * 2 + txCodedBits mod.modcod / 2 + 128)
  rw [OpenVlsnr.modulate, h.dfl]
  by_cases hlong : userLen > mod.modcod.kBch - bbHeaderBits
  · rw [if_pos hlong, if_pos hlong]
    exact ⟨h, rfl⟩
  rw [if_neg hlong, if_neg (hcap _ h.mem)] at hcall
  rw [if_neg hlong, if_neg hlong]
  dsimp only
  have hsame : (modulateSymbols const mod userData userLen [] (plheaderLen + vlsnrHdrLen
      + txCodedBits mod.modcod * 2 + txCodedBits mod.modcod / 2 + 128)).1.txFilter = mod.txFilter
      ∧ (modulateSymbols const mod userData userLen [] (plheaderLen + vlsnrHdrLen
      + txCodedBits mod.modcod * 2 + txCodedBits mod.modcod / 2 + 128)).1.sps = mod.sps := by
    rw [modulateSymbols]
    split
    · exact ⟨rfl, rfl⟩
    · dsimp only
      split <;> exact ⟨rfl, rfl⟩
  generalize modulateSymbols const mod userData userLen [] _ = r at hready hcall hsame ⊢
  obtain ⟨mod', call⟩ := r
  obtain ⟨hfilter, hsps⟩ := hsame
  dsimp only at hready hcall hfilter hsps ⊢
  subst hcall
  dsimp only
  have hroom : ¬ modFrameLen mod.modcod > uintMax / mod'.sps := by
    rw [hsps, gt_iff_lt, not_lt, Nat.le_div_iff_mul_le (by have := h.filter.admits.1; omega)]
    calc modFrameLen mod.modcod * mod.sps ≤ modFrameLen mod.modcod * 7 :=
          Nat.mul_le_mul_left _ h.sps_le
      _ ≤ uintMax := hmax _ h.mem
  rw [if_neg (lt_irrefl 0), if_neg hroom, hsps]
  by_cases hshort : capacity < modFrameLen mod.modcod * mod.sps
  · rw [if_pos hshort, if_pos hshort]
    exact ⟨hready, rfl⟩
  · have hframe : (memcpyAt [] 0 (modUserFrame const mod userData userLen)).take
        (modFrameLen mod.modcod) = modUserFrame const mod userData userLen := by
      rw [memcpyAt, List.take_nil, List.drop_nil, List.nil_append, List.append_nil, modUserFrame,
        List.take_of_length_le (modFrame_length const h.mem _ _).le]
    -- a reset filter is at the start of the convolution
    have hat : FilterAt mod.txFilter (rrcFilterReset mod'.txFilter) [] := by
      rw [hfilter]
      exact .reset h.filter rfl rfl rfl
    have hrate : (rrcFilterReset mod'.txFilter).sps = mod.sps := by
      rw [hfilter]
      exact h.filter.sps_eq
    obtain ⟨hflt, hout⟩ := rrcFilterApply_spec h.filter
      (zeroStuff mod.sps (modUserFrame const mod userData userLen)) hat
    rw [if_neg hshort, if_neg hshort, hframe, rrcUpsample_eq, hrate]
    have hlen : (zeroStuff mod.sps (modUserFrame const mod userData userLen)).length
        = modFrameLen mod.modcod * mod.sps := by
      rw [zeroStuff_length, modUserFrame, modFrame_length const h.mem]
    have hadmits : RrcAdmits mod.sps filterSpan := h.filter.admits
    refine ⟨⟨hready.mem, h.sps_le, hready.stream, hready.dfl, hready.kBch, hready.bch,
      hready.ldpc, ⟨hadmits, ?_, ?_, ?_⟩⟩, ?_⟩
    · rw [hflt.numTaps_eq, h.filter.numTaps_eq]
    · rw [hflt.sps_eq, h.filter.sps_eq]
    · rw [hflt.numTaps_eq, hflt.coeffs_eq]
      exact h.filter.symm
    · rw [hout]
      simp only [List.length_map, List.length_range, List.nil_append, List.length_nil,
        Nat.zero_add, hlen]

/-! ### Runs -/

/-- What calls leave alone: all but the roll-off code and the delay lines. -/
structure ModAlike (mod₀ mod : Modulator R) : Prop where
  modcod : mod.modcod = mod₀.modcod
  rolloff : mod.rolloff = mod₀.rolloff
  sps : mod.sps = mod₀.sps
  plScramblingIdx : mod.plScramblingIdx = mod₀.plScramblingIdx
  bbCtx : ∀ ro : Byte, { mod.bbCtx with ro := ro } = { mod₀.bbCtx with ro := ro }
  bchEnc : mod.bchEnc = mod₀.bchEnc
  ldpcEnc : mod.ldpcEnc = mod₀.ldpcEnc
  coeffs : mod.txFilter.coeffs = mod₀.txFilter.coeffs
  numTaps : mod.txFilter.numTaps = mod₀.txFilter.numTaps

omit [Field R] [LinearOrder R] [IsStrictOrderedRing R] in
theorem ModAlike.refl (mod : Modulator R) : ModAlike mod mod :=
  ⟨rfl, rfl, rfl, rfl, fun _ => rfl, rfl, rfl, rfl, rfl⟩

omit [IsStrictOrderedRing R] in
theorem ModAlike.frame {mod₀ : Modulator R} (h : ModAlike mod₀ mod) (userData : List Bool)
    (userLen : ℕ) :
    modUserFrame const mod userData userLen = modUserFrame const mod₀ userData userLen := by
  rw [modUserFrame, modUserFrame, modBbframe, modBbframe, h.modcod, h.plScramblingIdx, h.bchEnc,
    h.ldpcEnc, h.rolloff, h.bbCtx]

omit [IsStrictOrderedRing R] in
theorem ModAlike.symbols {mod₀ : Modulator R} (h : ModAlike mod₀ mod) (userData : List Bool)
    (userLen : ℕ) (symbols : List (Cplx R)) (capacity : ℕ) :
    ModAlike mod₀ (modulateSymbols const mod userData userLen symbols capacity).1 := by
  rw [modulateSymbols]
  split
  · exact h
  · have hnext : ModAlike mod₀
        { mod with bbCtx := { mod.bbCtx with ro := roFromRolloff mod.rolloff } } :=
      ⟨h.modcod, h.rolloff, h.sps, h.plScramblingIdx, h.bbCtx, h.bchEnc, h.ldpcEnc, h.coeffs,
        h.numTaps⟩
    dsimp only
    split <;> exact hnext

/-- Filtering leaves the taps. -/
theorem rrcFilterApply_taps {R : Type*} [CommRing R] (flt : RrcFilter R) (input : List (Cplx R)) :
    (rrcFilterApply flt input).1.coeffs = flt.coeffs ∧
      (rrcFilterApply flt input).1.numTaps = flt.numTaps := by
  induction input generalizing flt with
  | nil => exact ⟨rfl, rfl⟩
  | cons x input ih => exact ih (filterOne flt x).1

omit [IsStrictOrderedRing R] in
theorem ModAlike.modulate {mod₀ : Modulator R} (h : ModAlike mod₀ mod) (userData : List Bool)
    (userLen : ℕ) (output : List (Cplx R)) (capacity : ℕ) :
    ModAlike mod₀ (OpenVlsnr.modulate const mod userData userLen output capacity).1 := by
  rw [OpenVlsnr.modulate]
  split
  · exact h
  · have hnext := h.symbols const userData userLen [] (plheaderLen + vlsnrHdrLen
      + txCodedBits mod.modcod * 2 + txCodedBits mod.modcod / 2 + 128)
    dsimp only
    generalize modulateSymbols const mod userData userLen [] _ = r at hnext ⊢
    split
    · exact hnext
    split
    · exact hnext
    split
    · exact hnext
    · rw [rrcUpsample_eq]
      have htaps := rrcFilterApply_taps (rrcFilterReset r.1.txFilter)
        (zeroStuff (rrcFilterReset r.1.txFilter).sps (r.2.symbols.take r.2.symLen))
      exact ⟨hnext.modcod, hnext.rolloff, hnext.sps, hnext.plScramblingIdx, hnext.bbCtx,
        hnext.bchEnc, hnext.ldpcEnc, htaps.1.trans hnext.coeffs, htaps.2.trans hnext.numTaps⟩

/-- A call of the modulator: at symbol rate, or shaped. -/
inductive ModOp (R : Type*) where
  | symbols (userData : List Bool) (userLen : ℕ) (symbols : List (Cplx R)) (capacity : ℕ)
  | samples (userData : List Bool) (userLen : ℕ) (output : List (Cplx R)) (capacity : ℕ)

def modStep (mod : Modulator R) : ModOp R → Modulator R
  | .symbols userData userLen symbols capacity =>
    (modulateSymbols const mod userData userLen symbols capacity).1
  | .samples userData userLen output capacity =>
    (modulate const mod userData userLen output capacity).1

/-- The context behind any calls. -/
def modRun (mod : Modulator R) (ops : List (ModOp R)) : Modulator R := ops.foldl (modStep const) mod

omit [IsStrictOrderedRing R] in
theorem modRun_inv {mod₀ : Modulator R} (ops : List (ModOp R)) (h : ModReady mod)
    (halike : ModAlike mod₀ mod) :
    ModReady (modRun const mod ops) ∧ ModAlike mod₀ (modRun const mod ops) := by
  induction ops generalizing mod with
  | nil => exact ⟨h, halike⟩
  | cons op ops ih =>
    cases op with
    | symbols userData userLen symbols capacity =>
      exact ih (h.symbols const userData userLen symbols capacity).1
        (halike.symbols const userData userLen symbols capacity)
    | samples userData userLen output capacity =>
      exact ih (h.modulate const userData userLen output capacity).1
        (halike.modulate const userData userLen output capacity)

/-- **Every call of a modulator**, whatever calls came before: user data that do not fit are
refused, a buffer that is too small is reported with the room needed, and otherwise the call gives
the frame of the data, with every symbol on a diagonal, or its convolution with the designed
taps. -/
theorem modulator_calls {math : RrcMath R} {modcodIdx : ℕ} {rolloff : R}
    {sps plScramblingIdx : ℕ} {mod₀ : Modulator R}
    (hinit : modulatorInit math modcodIdx rolloff sps plScramblingIdx = some (.ok mod₀))
    (ops : List (ModOp R)) (userData : List Bool) (userLen : ℕ) (output : List (Cplx R))
    (capacity : ℕ) :
    let frame := modUserFrame const mod₀ userData userLen
    let len := modFrameLen mod₀.modcod
    frame.length = len ∧ (∀ s ∈ frame, Diagonal const s) ∧
      (modulateSymbols const (modRun const mod₀ ops) userData userLen output capacity).2 =
        (if userLen > mod₀.modcod.kBch - bbHeaderBits then ⟨errParam, output, 0⟩
        else if capacity < len then ⟨errShort, output, len⟩
        else ⟨ok, memcpyAt output 0 frame, len⟩) ∧
      (modulate const (modRun const mod₀ ops) userData userLen output capacity).2 =
        if userLen > mod₀.modcod.kBch - bbHeaderBits then ⟨errParam, output, 0⟩
        else if capacity < len * sps then ⟨errShort, output, len * sps⟩
        else ⟨ok, memcpyAt output 0 ((List.range (len * sps)).map
          (firOutput mod₀.txFilter.coeffs mod₀.txFilter.numTaps (zeroStuff sps frame))),
          len * sps⟩ := by
  intro frame len
  obtain ⟨hready, -, hsps, -⟩ := modulatorInit_ready hinit
  obtain ⟨hrun, halike⟩ := modRun_inv const ops hready (.refl mod₀)
  refine ⟨modFrame_length const hready.mem _ _, modFrame_diagonal hready.mem _ _ const, ?_, ?_⟩
  · rw [(hrun.symbols const userData userLen output capacity).2, halike.modcod,
      halike.frame const]
  · rw [(hrun.modulate const userData userLen output capacity).2, halike.modcod,
      halike.frame const, halike.sps, halike.coeffs, halike.numTaps, hsps]

end

/-- Calls on a spread short frame, two samples a symbol, after a call without room: the symbols of
three bits, a refusal of the samples for want of room, and the samples. -/
theorem modulator_calls_three : ∃ mod₀ : Modulator ℝ,
    modulatorInit RrcMath.exact 5 (1 / 5) 2 7 = some (.ok mod₀) ∧
      let mod := modRun Sqrt2.exact mod₀ [.samples [false] 1 [] 10]
      let userData := [true, false, true]
      let frame := modUserFrame Sqrt2.exact mod₀ userData 3
      let len := modFrameLen mod₀.modcod
      (modulateSymbols Sqrt2.exact mod userData 3 [] len).2 = ⟨ok, frame, len⟩ ∧
        (modulate Sqrt2.exact mod userData 3 [] 10).2 = ⟨errShort, [], len * 2⟩ ∧
        (modulate Sqrt2.exact mod userData 3 [] (len * 2)).2
          = ⟨ok, (List.range (len * 2)).map
              (firOutput mod₀.txFilter.coeffs mod₀.txFilter.numTaps (zeroStuff 2 frame)), len * 2⟩ := by
  obtain ⟨mod₀, hinit, hready, -⟩ := (modulatorInit_accepts RrcMath.exact 5 (1 / 5) 2 7).1
    ⟨by decide, by decide, by norm_num, by decide⟩
  refine ⟨mod₀, hinit, ?_⟩
  intro mod userData frame len
  have hfits : ¬3 > mod₀.modcod.kBch - bbHeaderBits := by
    obtain ⟨hlow, -⟩ := modcod_geometry mod₀.modcod hready.mem
    simp only [bbHeaderBits]
    omega
  have hlen : 10 < len * 2 := by
    show 10 < modFrameLen mod₀.modcod * 2
    rw [modFrameLen]
    split <;> decide
  have hempty : ∀ x : List (Cplx ℝ), memcpyAt [] 0 x = x := fun x => by simp [memcpyAt]
  obtain ⟨-, -, hsymbols, -⟩ := modulator_calls Sqrt2.exact hinit [.samples [false] 1 [] 10] userData 3
    [] len
  obtain ⟨-, -, -, hshort⟩ := modulator_calls Sqrt2.exact hinit [.samples [false] 1 [] 10] userData 3
    [] 10
  obtain ⟨-, -, -, hsamples⟩ := modulator_calls Sqrt2.exact hinit [.samples [false] 1 [] 10] userData
    3 [] (len * 2)
  rw [if_neg hfits, if_neg (lt_irrefl _), hempty] at hsymbols hsamples
  rw [if_neg hfits, if_pos hlen] at hshort
  exact ⟨hsymbols, hshort, hsamples⟩

end OpenVlsnr
