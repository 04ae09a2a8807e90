import OpenVlsnr.BbFrame
import OpenVlsnr.BchDecode
import OpenVlsnr.FecChain
import OpenVlsnr.PlField

/-!
# The demodulator on one block of symbols (`demodulator_top.c`, `sync_afc.c`)

`dvbs2x_demodulate_bbframe_symbols_ex` and the burst entry points around it.  The signal
processing on real numbers (filter, timing, correlator, carrier recovery, box-plus) is a record
`RxStages` of functions: the code around it reads nothing of them but their results.  All else,
the order of the checks, what each exit leaves in the context, the descrambler, the pilots, the
demapper and the depuncturing, is the code's own.

* `demodulateBbframeSymbols` - from symbols to a BBFRAME;
* `demodulateSymbols`, `demodulate`, `demodulateBbframe` - the burst calls;
* `demodLockUpdate` - the lock state machine.
-/

namespace OpenVlsnr

/-! ### Constants -/

abbrev acqWindow : ℕ := 4096
abbrev trackSearchRadius : ℕ := 256
abbrev highSnrLdpcIter : ℕ := 3
abbrev filterSpan : ℕ := 16
abbrev lockThresh : ℕ := 3
abbrev lossThresh : ℕ := 3

/-! ### The context -/

/-- `enum dvbs2x_demod_state`. -/
inductive DemodState where
  | search
  | acquire
  | track
  deriving DecidableEq, Repr

section
variable (R : Type*)

/-- `struct dvbs2x_afc`, without the fields that `dvbs2x_afc_update` never reads. -/
@[ext]
structure Afc where
  freqEst : R
  frames : ℕ
  locked : Bool
  rawPrev : R
  consistent : ℕ

/-- `struct dvbs2x_demod_stats`. -/
structure DemodStats where
  modcod : ℕ
  syncConfidence : R
  esn0Db : R
  ldpcIterations : ℕ
  result : ℤ

/-- `struct dvbs2x_demodulator`.  `streamBuf` holds the first `stream_len` entries of
`stream_buf`; filter, timing and scrambler are represented by their configuration, because every
call resets them before it uses them. -/
structure Demodulator where
  rolloff : R
  sps : ℕ
  numTaps : ℕ
  goldIdx : ℕ
  modcod : Option Modcod
  afc : Afc R
  ldpcDec : Option LdpcDecoder
  state : DemodState
  consecutiveSuccesses : ℕ
  consecutiveFailures : ℕ
  maxLdpcIterations : ℕ
  expectedFrameLen : ℕ
  predictedWhStart : ℕ
  haveWhPrediction : Bool
  streamBuf : List (Cplx R)
  streamCap : ℕ
  lastStats : DemodStats R
  cancelRequested : Bool

/-- What `dvbs2x_vlsnr_header_sync_mode` returns. -/
structure HeaderSync where
  conf : R
  offset : ℕ
  modcodIdx : ℕ

/-- The signal processing behind one call, and the cancellation request that may arrive while the
call is running: the LDPC iteration before which the flag is set. -/
structure RxStages [Field R] [LinearOrder R] where
  const : Sqrt2 R
  frontEnd : R → ℕ → List (Cplx R) → List (Cplx R)
  derotate : R → List (Cplx R) → List (Cplx R)
  coarseBlindCarrier : List (Cplx R) → List (Cplx R)
  headerSync : List (Cplx R) → ℕ → ℕ → HeaderSync R
  normalizeInputLevel : Modcod → ℕ → List (Cplx R) → List (Cplx R)
  estimateNoiseVar : Modcod → ℕ → List (Cplx R) → R
  esn0 : R → R
  afcRaw : Modcod → ℕ → List (Cplx R) → R
  coarseFreqRecover : Modcod → ℕ → R → List (Cplx R) → List (Cplx R)
  residualCarrierTrack : Modcod → ℕ → List (Cplx R) → List (Cplx R)
  ldpc : LdpcDecoder → (ℕ → Bool) → List R → LdpcOutcome R
  bch : BchDecoder → List Bool → ℤ × List Bool
  cancelAt : Option ℕ

end

section
variable {R : Type*} [Field R] [LinearOrder R]

/-! ### Automatic frequency control -/

abbrev afcLockFrames : ℕ := 3

/-- `dvbs2x_afc_init`. -/
def afcInit : Afc R where
  freqEst := 0
  frames := 0
  locked := false
  rawPrev := 0
  consistent := 0

/-- `step`, clamped to `AFC_MAX_STEP`. -/
def afcStep (fRaw : R) : R :=
  if fRaw > 1 / 5000 then 1 / 5000 else if fRaw < -(1 / 5000) then -(1 / 5000) else fRaw

/-- `dvbs2x_afc_update`, from the raw estimate on; `frames` is an `unsigned int`. -/
def afcUpdate (afc : Afc R) (fRaw : R) : Afc R :=
  let frames := (afc.frames + 1) % 2 ^ 32
  let consistent :=
    if frames > 1 ∧ |fRaw - afc.rawPrev| < 3 / 20000 then
      if afc.consistent < afcLockFrames then afc.consistent + 1 else afc.consistent
    else 0
  if consistent ≥ afcLockFrames then
    { freqEst := afc.freqEst + afcStep fRaw, frames := frames, locked := true, rawPrev := fRaw
      consistent := consistent }
  else
    { freqEst := afc.freqEst, frames := frames, locked := false, rawPrev := fRaw
      consistent := consistent }

theorem afcUpdate_frames (afc : Afc R) (fRaw : R) :
    (afcUpdate afc fRaw).frames = (afc.frames + 1) % 2 ^ 32 := by
  unfold afcUpdate
  extract_lets
  split <;> rfl

/-- Every update is visible: it counts a frame. -/
theorem afcUpdate_ne (afc : Afc R) (fRaw : R) : afcUpdate afc fRaw ≠ afc := by
  intro h
  have hframes := congrArg Afc.frames h
  rw [afcUpdate_frames] at hframes
  omega

/-! ### Initialisation -/

def demodStatsZero : DemodStats R where
  modcod := 0
  syncConfidence := 0
  esn0Db := 0
  ldpcIterations := 0
  result := 0

/-- The context that `dvbs2x_demodulator_init` sets up. -/
def freshDemodulator (rolloff : R) (sps plScramblingIdx : ℕ) : Demodulator R where
  rolloff := rolloff
  sps := sps
  numTaps := 2 * filterSpan * sps + 1
  goldIdx := plScramblingIdx
  modcod := none
  afc := afcInit
  ldpcDec := none
  state := .search
  consecutiveSuccesses := 0
  consecutiveFailures := 0
  maxLdpcIterations := ldpcMaxIter
  expectedFrameLen := 0
  predictedWhStart := 0
  haveWhPrediction := false
  streamBuf := []
  streamCap := 0
  lastStats := demodStatsZero
  cancelRequested := false

/-- `dvbs2x_demodulator_init`, the checks of `dvbs2x_rrc_filter_init` among its own. -/
def demodulatorInit (rolloff : R) (sps plScramblingIdx : ℕ) : Except ℤ (Demodulator R) :=
  if sps < 2 ∨ rolloff < 1 / 20 ∨ rolloff > 7 / 20 ∨ plScramblingIdx > goldCodeMax then
    .error errParam
  else if filterSpan > (filterMaxTaps - 1) / 2 / sps then .error errParam
  else .ok (freshDemodulator rolloff sps plScramblingIdx)

/-- What the checks admit: two to seven samples per symbol. -/
theorem demodulatorInit_ok {rolloff : R} {sps plScramblingIdx : ℕ} {demod : Demodulator R}
    (h : demodulatorInit rolloff sps plScramblingIdx = .ok demod) :
    demod = freshDemodulator rolloff sps plScramblingIdx ∧ 2 ≤ sps ∧ sps ≤ 7 ∧
      plScramblingIdx ≤ goldCodeMax := by
  unfold demodulatorInit at h
  split_ifs at h with hparam hspan
  obtain ⟨hsps, -, -, hgold⟩ := by simpa only [not_or, not_lt] using hparam
  refine ⟨(Except.ok.inj h).symm, hsps, ?_, hgold⟩
  by_contra hbig
  have hdiv : (filterMaxTaps - 1) / 2 / sps ≤ (filterMaxTaps - 1) / 2 / 8 :=
    Nat.div_le_div_left (by omega) (by decide)
  exact hspan (hdiv.trans_lt (by decide))

theorem demodulatorInit_rat : demodulatorInit (1 / 5 : ℚ) 2 0 = .ok (freshDemodulator (1 / 5) 2 0) := by
  unfold demodulatorInit
  rw [if_neg (by norm_num), if_neg (by decide)]

/-- `dvbs2x_demodulator_request_cancel`. -/
def demodulatorRequestCancel (demod : Demodulator R) : Demodulator R :=
  { demod with cancelRequested := true }

/-- `dvbs2x_demodulator_set_max_ldpc_iterations`. -/
def demodulatorSetMaxLdpcIterations (demod : Demodulator R) (maxIterations : ℕ) :
    ℤ × Demodulator R :=
  if maxIterations = 0 ∨ maxIterations > ldpcMaxIter then (errParam, demod)
  else (ok, { demod with maxLdpcIterations := maxIterations })

/-! ### Header search -/

/-- The test for the predicted-position branch. -/
def Demodulator.tracking (demod : Demodulator R) : Bool :=
  demod.state ≠ .search && demod.haveWhPrediction

/-- `search_base` of the predicted-position branch. -/
def trackBase (demod : Demodulator R) : ℕ :=
  if demod.predictedWhStart > trackSearchRadius then demod.predictedWhStart - trackSearchRadius
  else 0

/-- `search_len` of the predicted-position branch; `in_len - search_base` is unsigned. -/
def trackLen (demod : Demodulator R) (inLen : ℕ) : ℕ :=
  let searchLen := 2 * trackSearchRadius + vlsnrWhLen
  let room := (inLen + 2 ^ 32 - trackBase demod) % 2 ^ 32
  if searchLen > room then room else searchLen

/-- The search around the predicted position. -/
def trackSearch (rx : RxStages R) (demod : Demodulator R) (work : List (Cplx R)) (inLen : ℕ) :
    HeaderSync R :=
  let sync := rx.headerSync (work.drop (trackBase demod)) (trackLen demod inLen)
    (match demod.modcod with
      | some mc => mc.index
      | none => 0)
  { sync with offset := (sync.offset + trackBase demod) % 2 ^ 32 }

/-- The search of the acquisition window; `wh_start` is an `unsigned int`. -/
def acquireSearch (rx : RxStages R) (work : List (Cplx R)) (inLen : ℕ) : HeaderSync R :=
  let searchLen := if inLen > acqWindow + vlsnrWhLen then acqWindow + vlsnrWhLen else inLen
  let sync := rx.headerSync work searchLen 0
  { sync with offset := sync.offset % 2 ^ 32 }

/-- Both searches: the second when the first was not made or is not trusted. -/
def headerSearch (rx : RxStages R) (demod : Demodulator R) (work : List (Cplx R)) (inLen : ℕ) :
    HeaderSync R :=
  if demod.tracking then
    let sync := trackSearch rx demod work inLen
    if sync.conf < 9 / 20 then acquireSearch rx work inLen else sync
  else acquireSearch rx work inLen

/-- The symbols that the correlator sees: pre-corrected outside of `SEARCH`. -/
def preCorrect (rx : RxStages R) (demod : Demodulator R) (input : List (Cplx R)) :
    List (Cplx R) :=
  rx.coarseBlindCarrier
    (if demod.state ≠ .search ∧ demod.afc.freqEst ≠ 0 then rx.derotate demod.afc.freqEst input
      else input)

/-! ### From symbols to LLRs -/

/-- `data_start`. -/
def dataStart (whStart : ℕ) : ℕ := (whStart + vlsnrWhLen + 2) % 2 ^ 32

/-- `demap_nv`. -/
def demapNoise (rx : RxStages R) (lay : VlsnrLayout) (pilots : List (Cplx R))
    (noiseVar nvEst : R) : R :=
  if noiseVar > 0 then noiseVar
  else if lay.numPilot ≠ 0 then
    let acc := (pilots.map fun p =>
      (p.i - rx.const.half) * (p.i - rx.const.half)
        + (p.q - rx.const.half) * (p.q - rx.const.half)).sum
    let demapNv := acc / (2 * (lay.numPilot : R))
    if demapNv < 1 / 10000 then 1 / 10000 else demapNv
  else if nvEst > 1 / 10000 then nvEst else 1 / 10000

/-- `ldpc_iter_limit`. -/
def ldpcIterLimit (maxIter : ℕ) (esn0Db : R) : ℕ :=
  if maxIter > highSnrLdpcIter ∧
      ((maxIter = ldpcMaxIter ∧ esn0Db > 10) ∨ (maxIter ≠ ldpcMaxIter ∧ esn0Db > 14)) then
    highSnrLdpcIter
  else maxIter

/-- The decoder input of a frame whose header starts at `whStart` of the normalised symbols. -/
def frameLlr (rx : RxStages R) (goldIdx : ℕ) (mc : Modcod) (whStart : ℕ) (noiseVar nvEst : R)
    (work : List (Cplx R)) : List R :=
  let lay := buildLayout mc
  let work := rx.coarseFreqRecover mc whStart (rx.esn0 nvEst) work
  let scr := scramblerSeek (scramblerReset (scramblerInit goldIdx)) vlsnrHdrLen
  let field := (descrambleField scr ((work.drop (dataStart whStart)).take lay.fieldLen) lay.isPilot
    (mc.modulation = .qpsk)).1
  let work := rx.residualCarrierTrack mc whStart (memcpyAt work (dataStart whStart) field)
  let r := pilotExtract ((work.drop (dataStart whStart)).take lay.fieldLen) lay
  let llr := plLlr rx.const mc r.1 (demapNoise rx lay r.2 noiseVar nvEst)
  (expandLlr mc (deinterleave mc llr)).fullLlr

/-! ### Error correction -/

/-- The decoder that the call uses: the cached one when its dimensions fit. -/
def frameDecoder (cached : Option LdpcDecoder) (mc : Modcod) : Option LdpcDecoder :=
  match cached with
  | some dec =>
      if dec.code.n ≠ mc.fecLen ∨ dec.code.k ≠ mc.kLdpc then ldpcDecoderInit mc ldpcMaxIter
      else some dec
  | none => ldpcDecoderInit mc ldpcMaxIter

/-- The cancel flag as LDPC iteration `iter` sees it. -/
def cancelFlag (rx : RxStages R) (demod : Demodulator R) (iter : ℕ) : Bool :=
  demod.cancelRequested || (match rx.cancelAt with
    | some start => start ≤ iter
    | none => false)

/-- The cancel flag after the LDPC decoder has returned. -/
def cancelAfter (rx : RxStages R) (demod : Demodulator R) : Bool :=
  demod.cancelRequested || rx.cancelAt.isSome

/-- LDPC and BCH on a frame: the bits of the BCH codeword, or the error code. -/
def frameFec (rx : RxStages R) (demod : Demodulator R) (mc : Modcod) (dec : LdpcDecoder)
    (limit : ℕ) (llr : List R) : Except ℤ (List Bool) :=
  let out := rx.ldpc { dec with maxIter := limit } (cancelFlag rx demod) llr
  if out.ret < 0 ∧ cancelAfter rx demod then .error errCancelled
  else
    let r := rx.bch (bchDecoderInit mc) (bchWord mc out.output)
    if r.1 < 0 then .error errCrc else .ok r.2

/-! ### The call -/

/-- What a receive call returns and changes: the context, the output buffer and its length. -/
structure RxCall (R : Type*) where
  ret : ℤ
  demod : Demodulator R
  output : List Bool
  outputLen : ℕ

/-- `demod->last_stats.result = ret; return ret`. -/
def Demodulator.finish (demod : Demodulator R) (ret : ℤ) (bbframe : List Bool) (frameLen : ℕ) :
    RxCall R :=
  { ret := ret
    demod := { demod with lastStats := { demod.lastStats with result := ret } }
    output := bbframe
    outputLen := frameLen }

/-- The reset of `last_stats` at the start of a call. -/
def Demodulator.clearStats (demod : Demodulator R) : Demodulator R :=
  { demod with lastStats := { demodStatsZero with result := errNosync } }

/-- What an identified header changes. -/
def Demodulator.identify (demod : Demodulator R) (mc : Modcod) (sync : HeaderSync R) :
    Demodulator R :=
  { demod with
    modcod := some mc
    predictedWhStart := sync.offset
    haveWhPrediction := true
    lastStats := { demod.lastStats with modcod := sync.modcodIdx, syncConfidence := sync.conf } }

/-- The estimates taken from the header: Es/N0 and, outside of `SEARCH`, the AFC update. -/
def Demodulator.measure (rx : RxStages R) (demod : Demodulator R) (mc : Modcod) (whStart : ℕ)
    (work : List (Cplx R)) : Demodulator R :=
  { demod with
    afc := if demod.state ≠ .search then afcUpdate demod.afc (rx.afcRaw mc whStart work)
      else demod.afc
    lastStats := { demod.lastStats with
      esn0Db := rx.esn0 (rx.estimateNoiseVar mc whStart work) } }

/-- What the LDPC decoder changes. -/
def Demodulator.decoded (rx : RxStages R) (demod : Demodulator R) (dec : LdpcDecoder)
    (iterUsed : ℕ) : Demodulator R :=
  { demod with
    ldpcDec := some dec
    cancelRequested := cancelAfter rx demod
    lastStats := { demod.lastStats with ldpcIterations := iterUsed } }

/-- The call from the length check on: `sync` has named `mc`. -/
def demodulateFrame (rx : RxStages R) (demod : Demodulator R) (mc : Modcod) (whStart : ℕ)
    (work : List (Cplx R)) (inLen : ℕ) (noiseVar : R) (bbframe : List Bool)
    (frameCapacity : ℕ) : RxCall R :=
  if (dataStart whStart + (buildLayout mc).fieldLen) % 2 ^ 32 > inLen then
    demod.finish errShort bbframe 0
  else
    let limit := demod.maxLdpcIterations
    let work := rx.normalizeInputLevel mc whStart work
    let nvEst := rx.estimateNoiseVar mc whStart work
    let demod := demod.measure rx mc whStart work
    let llr := frameLlr rx demod.goldIdx mc whStart noiseVar nvEst work
    match frameDecoder demod.ldpcDec mc with
    | none => { demod with ldpcDec := none }.finish errNomem bbframe 0
    | some dec =>
      let limit := ldpcIterLimit limit (rx.esn0 nvEst)
      let out := rx.ldpc { dec with maxIter := limit } (cancelFlag rx demod) llr
      let fec := frameFec rx demod mc dec limit llr
      let demod := demod.decoded rx dec out.iterUsed
      match fec with
      | .error e => demod.finish e bbframe 0
      | .ok bchCw =>
        if frameCapacity < mc.kBch then demod.finish errShort bbframe mc.kBch
        else demod.finish ok (memcpyAt bbframe 0 (bchCw.take mc.kBch)) mc.kBch

/-- `dvbs2x_demodulate_bbframe_symbols_ex`. -/
def demodulateBbframeSymbols (rx : RxStages R) (demod : Demodulator R) (input : List (Cplx R))
    (noiseVar : R) (bbframe : List Bool) (frameCapacity : ℕ) : RxCall R :=
  if noiseVar < 0 then ⟨errParam, demod, bbframe, 0⟩
  else
    let demod := demod.clearStats
    if demod.cancelRequested then demod.finish errCancelled bbframe 0
    else if input.length < plheaderLen + vlsnrWhLen then ⟨errShort, demod, bbframe, 0⟩
    else
      let work := preCorrect rx demod input
      let sync := headerSearch rx demod work input.length
      let unidentified := { demod with
        lastStats := { demod.lastStats with syncConfidence := sync.conf } }
      if sync.conf < 9 / 20 then unidentified.finish errNosync bbframe 0
      else
        match vlsnrGetModcod sync.modcodIdx with
        | none => unidentified.finish errNosync bbframe 0
        | some mc =>
          demodulateFrame rx (demod.identify mc sync) mc sync.offset work input.length noiseVar
            bbframe frameCapacity

/-! ### Burst calls -/

/-- `dvbs2x_demodulate_symbols_ex`; its own frame buffer starts out empty. -/
def demodulateSymbols (rx : RxStages R) (demod : Demodulator R) (input : List (Cplx R))
    (noiseVar : R) (userData : List Bool) (userCapacity : ℕ) : RxCall R :=
  let call := demodulateBbframeSymbols rx demod input noiseVar [] ldpcNormal
  if call.ret < 0 then ⟨call.ret, call.demod, userData, 0⟩
  else
    match call.demod.modcod with
    | none => ⟨errParam, call.demod, userData, 0⟩
    | some mc =>
      if call.outputLen ≠ mc.kBch then ⟨errParam, call.demod, userData, 0⟩
      else
        let parse := bbFrameParseEx (bbFrameInit mc .gs) call.output userData userCapacity
        let ret := if parse.ret < 0 ∧ parse.ret ≠ errShort then errCrc else parse.ret
        ⟨ret, call.demod, parse.userData, parse.userLen⟩

/-- `dvbs2x_demodulate_ex`. -/
def demodulate (rx : RxStages R) (demod : Demodulator R) (input : List (Cplx R))
    (userData : List Bool) (userCapacity : ℕ) : RxCall R :=
  demodulateSymbols rx demod (rx.frontEnd demod.rolloff demod.sps input) 0 userData userCapacity

/-- `dvbs2x_demodulate_bbframe_ex`. -/
def demodulateBbframe (rx : RxStages R) (demod : Demodulator R) (input : List (Cplx R))
    (bbframe : List Bool) (frameCapacity : ℕ) : RxCall R :=
  demodulateBbframeSymbols rx demod (rx.frontEnd demod.rolloff demod.sps input) 0 bbframe
    frameCapacity

/-- The call by kind of output: a BBFRAME or the user data in it. -/
def decodeSymbols (rx : RxStages R) (demod : Demodulator R) (input : List (Cplx R)) (noiseVar : R)
    (output : List Bool) (outputCapacity : ℕ) (returnBbframe : Bool) : RxCall R :=
  if returnBbframe then demodulateBbframeSymbols rx demod input noiseVar output outputCapacity
  else demodulateSymbols rx demod input noiseVar output outputCapacity

/-- A negative noise variance is rejected before anything is touched. -/
theorem decodeSymbols_of_invalid {rx : RxStages R} {demod : Demodulator R}
    {input : List (Cplx R)} {noiseVar : R} {output : List Bool} {outputCapacity : ℕ}
    {returnBbframe : Bool} (hnoise : noiseVar < 0) :
    (decodeSymbols rx demod input noiseVar output outputCapacity returnBbframe).demod = demod := by
  have hcall : ∀ (bbframe : List Bool) (frameCapacity : ℕ),
      demodulateBbframeSymbols rx demod input noiseVar bbframe frameCapacity
        = ⟨errParam, demod, bbframe, 0⟩ :=
    fun bbframe frameCapacity => if_pos hnoise
  cases returnBbframe with
  | true => exact congrArg RxCall.demod (hcall output outputCapacity)
  | false =>
    show (demodulateSymbols rx demod input noiseVar output outputCapacity).demod = demod
    unfold demodulateSymbols
    rw [hcall]
    dsimp only
    rw [if_pos (by decide)]

/-! ### Lock state -/

/-- The reset on loss of lock. -/
def Demodulator.loseLock (demod : Demodulator R) : Demodulator R :=
  { demod with
    state := .search
    consecutiveFailures := 0
    expectedFrameLen := 0
    haveWhPrediction := false
    afc := afcInit }

/-- `dvbs2x_demod_lock_update`; both counters are `unsigned int`. -/
def demodLockUpdate (demod : Demodulator R) (success : Bool) : Demodulator R :=
  if success then
    let demod := { demod with
      consecutiveSuccesses := (demod.consecutiveSuccesses + 1) % 2 ^ 32
      consecutiveFailures := 0 }
    let demod := if demod.state = .search then { demod with state := .acquire } else demod
    if demod.state = .acquire ∧ demod.consecutiveSuccesses ≥ lockThresh then
      { demod with state := .track }
    else demod
  else
    let demod := { demod with
      consecutiveSuccesses := 0
      consecutiveFailures := (demod.consecutiveFailures + 1) % 2 ^ 32 }
    if demod.state ≠ .track ∨ demod.consecutiveFailures < lossThresh then demod
    else demod.loseLock

omit [LinearOrder R] in
/-- A success leaves `SEARCH` and touches only the state and the counters. -/
theorem demodLockUpdate_success (demod : Demodulator R) :
    ∃ state, state ≠ .search ∧ demodLockUpdate demod true
      = { demod with
          state := state
          consecutiveSuccesses := (demod.consecutiveSuccesses + 1) % 2 ^ 32
          consecutiveFailures := 0 } := by
  unfold demodLockUpdate
  rw [if_pos rfl]
  dsimp only
  by_cases hsearch : demod.state = .search
  · rw [if_pos hsearch]
    by_cases hthresh : (demod.consecutiveSuccesses + 1) % 2 ^ 32 ≥ lockThresh
    · exact ⟨.track, by decide, if_pos ⟨rfl, hthresh⟩⟩
    · exact ⟨.acquire, by decide, if_neg fun h => hthresh h.2⟩
  · rw [if_neg hsearch]
    by_cases hlock : demod.state = .acquire ∧
        (demod.consecutiveSuccesses + 1) % 2 ^ 32 ≥ lockThresh
    · exact ⟨.track, by decide, if_pos hlock⟩
    · exact ⟨demod.state, hsearch, if_neg hlock⟩

omit [LinearOrder R] in
/-- A failure counts, and the third in a row in `TRACK` loses the lock. -/
theorem demodLockUpdate_failure (demod : Demodulator R) :
    let counted := { demod with
      consecutiveSuccesses := 0
      consecutiveFailures := (demod.consecutiveFailures + 1) % 2 ^ 32 }
    demodLockUpdate demod false = counted ∨ demodLockUpdate demod false = counted.loseLock := by
  intro counted
  unfold demodLockUpdate
  rw [if_neg Bool.false_ne_true]
  dsimp only
  split_ifs
  · exact Or.inl rfl
  · exact Or.inr rfl

end

end OpenVlsnr
