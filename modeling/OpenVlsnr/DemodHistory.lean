import OpenVlsnr.DemodWindow
import OpenVlsnr.Modulator

/-!
# Burst calls and the history of a demodulator

A burst call resets filter and timing, but it shares lock state, AFC, header prediction and the
LDPC cache with the streaming calls.  The cache does no harm: MODCODs with the same dimensions have
the same decoder (`frameDecoder_eq_init`).  The others are read outside of `SEARCH`, so
`demodBurst_independent_iff` is: burst calls are independent of a history exactly when it ends in
`SEARCH`.
-/

namespace OpenVlsnr

section
variable {R : Type*} [Field R] [LinearOrder R]

/-! ### The decoder cache -/

/-- Rows with the same code dimensions have the same code. -/
theorem modcod_sameCode : ∀ mc ∈ vlsnrModcodTable, ∀ mc' ∈ vlsnrModcodTable,
    mc.fecLen = mc'.fecLen → mc.kLdpc = mc'.kLdpc →
      mc.codeRateDen = mc'.codeRateDen ∧ mc.qLdpc = mc'.qLdpc := by
  decide

theorem ldpcDecoderInit_congr {mc mc' : Modcod} (hmc : mc ∈ vlsnrModcodTable)
    (hmc' : mc' ∈ vlsnrModcodTable) (hlen : mc.fecLen = mc'.fecLen)
    (hdim : mc.kLdpc = mc'.kLdpc) (maxIter : ℕ) :
    ldpcDecoderInit mc maxIter = ldpcDecoderInit mc' maxIter := by
  obtain ⟨hrate, hq⟩ := modcod_sameCode mc hmc mc' hmc' hlen hdim
  unfold ldpcDecoderInit ldpcCodeInit ldpcGetTable
  rw [hlen, hdim, hrate, hq]

/-- A cached decoder is one that `dvbs2x_ldpc_decoder_init` has made. -/
def CacheInit (cached : Option LdpcDecoder) : Prop :=
  ∀ dec, cached = some dec →
    ∃ mc ∈ vlsnrModcodTable, ldpcDecoderInit mc ldpcMaxIter = some dec

/-- The dimensions of a decoder are those of its MODCOD. -/
theorem ldpcDecoderInit_dims {mc : Modcod} {maxIter : ℕ} {dec : LdpcDecoder}
    (h : ldpcDecoderInit mc maxIter = some dec) :
    dec.code.n = mc.fecLen ∧ dec.code.k = mc.kLdpc := by
  obtain ⟨code, hcode, rfl⟩ := Option.map_eq_some_iff.mp h
  obtain ⟨r, -, rfl⟩ := Option.map_eq_some_iff.mp hcode
  exact ⟨rfl, rfl⟩

/-- With the cache, a frame gets the decoder it would get without. -/
theorem frameDecoder_eq_init {cached : Option LdpcDecoder} (hcached : CacheInit cached)
    {mc : Modcod} (hmc : mc ∈ vlsnrModcodTable) :
    frameDecoder cached mc = ldpcDecoderInit mc ldpcMaxIter := by
  cases cached with
  | none => rfl
  | some dec =>
    dsimp only [frameDecoder]
    split_ifs with hdims
    · rfl
    · obtain ⟨mc', hmc', hinit⟩ := hcached dec rfl
      obtain ⟨hn, hk⟩ := ldpcDecoderInit_dims hinit
      obtain ⟨hn', hk'⟩ := not_or.mp hdims
      rw [← hinit]
      exact ldpcDecoderInit_congr hmc' hmc (hn.symm.trans (not_not.mp hn'))
        (hk.symm.trans (not_not.mp hk')) _

/-! ### Calls that agree -/

/-- The results of two calls, the MODCOD of a delivered frame among them. -/
structure SameResult (call call' : RxCall R) : Prop where
  ret : call.ret = call'.ret
  output : call.output = call'.output
  outputLen : call.outputLen = call'.outputLen
  modcod : ¬ call.ret < 0 → call.demod.modcod = call'.demod.modcod

/-- What a burst call in `SEARCH` reads of two contexts is the same. -/
structure SearchAlike (demod demod' : Demodulator R) : Prop where
  rolloff : demod.rolloff = demod'.rolloff
  sps : demod.sps = demod'.sps
  goldIdx : demod.goldIdx = demod'.goldIdx
  maxLdpcIterations : demod.maxLdpcIterations = demod'.maxLdpcIterations
  cancelRequested : demod.cancelRequested = demod'.cancelRequested
  state : demod.state = .search
  state' : demod'.state = .search
  ldpcDec : CacheInit demod.ldpcDec
  ldpcDec' : CacheInit demod'.ldpcDec

/-- The cancel flag is all that error correction reads of the context. -/
theorem frameFec_congr (rx : RxStages R) {demod demod' : Demodulator R}
    (h : demod.cancelRequested = demod'.cancelRequested) (mc : Modcod) (dec : LdpcDecoder)
    (limit : ℕ) (llr : List R) :
    frameFec rx demod mc dec limit llr = frameFec rx demod' mc dec limit llr := by
  have hflag : cancelFlag rx demod = cancelFlag rx demod' := by
    funext iter
    unfold cancelFlag
    rw [h]
  have hafter : cancelAfter rx demod = cancelAfter rx demod' := by
    unfold cancelAfter
    rw [h]
  unfold frameFec
  rw [hflag, hafter]

theorem demodulateFrame_congr (rx : RxStages R) {demod demod' : Demodulator R}
    (hgold : demod.goldIdx = demod'.goldIdx)
    (hlimit : demod.maxLdpcIterations = demod'.maxLdpcIterations)
    (hcancel : demod.cancelRequested = demod'.cancelRequested)
    (hmodcod : demod.modcod = demod'.modcod) {mc : Modcod}
    (hdec : frameDecoder demod.ldpcDec mc = frameDecoder demod'.ldpcDec mc) (whStart : ℕ)
    (work : List (Cplx R)) (inLen : ℕ) (noiseVar : R) (output : List Bool) (capacity : ℕ) :
    SameResult (demodulateFrame rx demod mc whStart work inLen noiseVar output capacity)
      (demodulateFrame rx demod' mc whStart work inLen noiseVar output capacity) := by
  unfold demodulateFrame
  by_cases hshort : (dataStart whStart + (buildLayout mc).fieldLen) % 2 ^ 32 > inLen
  · rw [if_pos hshort, if_pos hshort]
    exact ⟨rfl, rfl, rfl, fun _ => hmodcod⟩
  rw [if_neg hshort, if_neg hshort]
  extract_lets start level nvEst measured llr limit start' measured' llr' limit'
  have hllr : llr = llr' := by
    show frameLlr rx demod.goldIdx mc whStart noiseVar nvEst level
      = frameLlr rx demod'.goldIdx mc whStart noiseVar nvEst level
    rw [hgold]
  have hdec' : frameDecoder measured.ldpcDec mc = frameDecoder measured'.ldpcDec mc := hdec
  have hlimits : limit = limit' := by
    show ldpcIterLimit demod.maxLdpcIterations _ = ldpcIterLimit demod'.maxLdpcIterations _
    rw [hlimit]
  rw [hdec', hllr, hlimits]
  cases frameDecoder measured'.ldpcDec mc with
  | none => exact ⟨rfl, rfl, rfl, fun _ => hmodcod⟩
  | some dec =>
    dsimp only
    have hfec := frameFec_congr rx (show measured.cancelRequested = measured'.cancelRequested from
      hcancel) mc dec limit' llr'
    rw [hfec]
    cases frameFec rx measured' mc dec limit' llr' with
    | error e => exact ⟨rfl, rfl, rfl, fun _ => hmodcod⟩
    | ok bchCw =>
      dsimp only
      split_ifs
      · exact ⟨rfl, rfl, rfl, fun _ => hmodcod⟩
      · exact ⟨rfl, rfl, rfl, fun _ => hmodcod⟩

/-- In `SEARCH` there is no pre-correction and no predicted position. -/
theorem headerSearch_search (rx : RxStages R) {demod : Demodulator R}
    (hstate : demod.state = .search) (input : List (Cplx R)) :
    headerSearch rx demod (preCorrect rx demod input) input.length
      = acquireSearch rx (rx.coarseBlindCarrier input) input.length := by
  have hwork : preCorrect rx demod input = rx.coarseBlindCarrier input := by
    unfold preCorrect
    rw [if_neg fun h => h.1 hstate]
  have htracking : ¬ demod.tracking = true := by
    unfold Demodulator.tracking
    rw [hstate]
    exact Bool.false_ne_true
  unfold headerSearch
  rw [hwork, if_neg htracking]

theorem demodulateBbframeSymbols_congr (rx : RxStages R) {demod demod' : Demodulator R}
    (h : SearchAlike demod demod') (input : List (Cplx R)) (noiseVar : R) (output : List Bool)
    (capacity : ℕ) :
    SameResult (demodulateBbframeSymbols rx demod input noiseVar output capacity)
      (demodulateBbframeSymbols rx demod' input noiseVar output capacity) := by
  have hfailed : ∀ {e : ℤ} {a a' : Demodulator R}, e < 0 →
      SameResult (a.finish e output 0) (a'.finish e output 0) :=
    fun he => ⟨rfl, rfl, rfl, fun hok => absurd he hok⟩
  unfold demodulateBbframeSymbols
  by_cases hnoise : noiseVar < 0
  · rw [if_pos hnoise, if_pos hnoise]
    exact ⟨rfl, rfl, rfl, fun hok => absurd (show errParam < 0 by decide) hok⟩
  rw [if_neg hnoise, if_neg hnoise]
  dsimp only
  have hcancel : demod.clearStats.cancelRequested = demod'.clearStats.cancelRequested :=
    h.cancelRequested
  rw [hcancel]
  by_cases hcancelled : demod'.clearStats.cancelRequested = true
  · rw [if_pos hcancelled, if_pos hcancelled]
    exact hfailed (by decide)
  rw [if_neg hcancelled, if_neg hcancelled]
  by_cases hlen : input.length < plheaderLen + vlsnrWhLen
  · rw [if_pos hlen, if_pos hlen]
    exact ⟨rfl, rfl, rfl, fun hok => absurd (show errShort < 0 by decide) hok⟩
  rw [if_neg hlen, if_neg hlen]
  have hwork : ∀ {a : Demodulator R}, a.state = .search →
      preCorrect rx a.clearStats input = rx.coarseBlindCarrier input := by
    intro a ha
    unfold preCorrect
    rw [if_neg fun h' => h'.1 ha]
  rw [headerSearch_search rx (show demod.clearStats.state = .search from h.state),
    headerSearch_search rx (show demod'.clearStats.state = .search from h.state'),
    hwork h.state, hwork h.state']
  generalize acquireSearch rx (rx.coarseBlindCarrier input) input.length = sync
  by_cases hconf : sync.conf < 9 / 20
  · rw [if_pos hconf, if_pos hconf]
    exact hfailed (by decide)
  rw [if_neg hconf, if_neg hconf]
  cases hrow : vlsnrGetModcod sync.modcodIdx with
  | none => exact hfailed (by decide)
  | some mc =>
    have hmc := vlsnrGetModcod_mem hrow
    have hdec : frameDecoder demod.ldpcDec mc = frameDecoder demod'.ldpcDec mc :=
      (frameDecoder_eq_init h.ldpcDec hmc).trans (frameDecoder_eq_init h.ldpcDec' hmc).symm
    exact demodulateFrame_congr rx
      (show (demod.clearStats.identify mc sync).goldIdx = (demod'.clearStats.identify mc sync).goldIdx
        from h.goldIdx) h.maxLdpcIterations h.cancelRequested rfl hdec _ _ _ _ _ _

/-- The parser sees the same frame. -/
theorem demodulateSymbols_congr (rx : RxStages R) {demod demod' : Demodulator R}
    (h : SearchAlike demod demod') (input : List (Cplx R)) (noiseVar : R) (userData : List Bool)
    (capacity : ℕ) :
    SameResult (demodulateSymbols rx demod input noiseVar userData capacity)
      (demodulateSymbols rx demod' input noiseVar userData capacity) := by
  have hcall := demodulateBbframeSymbols_congr rx h input noiseVar [] ldpcNormal
  unfold demodulateSymbols
  dsimp only
  generalize demodulateBbframeSymbols rx demod input noiseVar [] ldpcNormal = call at hcall ⊢
  generalize demodulateBbframeSymbols rx demod' input noiseVar [] ldpcNormal = call' at hcall ⊢
  rw [← hcall.ret, ← hcall.output, ← hcall.outputLen]
  by_cases hneg : call.ret < 0
  · rw [if_pos hneg, if_pos hneg]
    exact ⟨rfl, rfl, rfl, fun hok => absurd hneg hok⟩
  rw [if_neg hneg, if_neg hneg, ← hcall.modcod hneg]
  cases call.demod.modcod with
  | none => exact ⟨rfl, rfl, rfl, fun _ => hcall.modcod hneg⟩
  | some mc =>
    dsimp only
    split_ifs
    · exact ⟨rfl, rfl, rfl, fun _ => hcall.modcod hneg⟩
    · exact ⟨rfl, rfl, rfl, fun _ => hcall.modcod hneg⟩
    · exact ⟨rfl, rfl, rfl, fun _ => hcall.modcod hneg⟩

/-! ### Histories -/

variable (R) in
/-- No cancellation is requested, before or during a call. -/
def DemodOp.uncancelled : DemodOp R → Prop
  | .stream rx _ _ _ _ => rx.cancelAt = none
  | .burst rx _ _ _ _ => rx.cancelAt = none
  | .symbols rx _ _ _ _ _ => rx.cancelAt = none
  | .requestCancel => False
  | .setMaxLdpcIterations _ => True

/-- What every history from `start` leaves in place. -/
structure HistoryInv (start demod : Demodulator R) : Prop where
  rolloff : demod.rolloff = start.rolloff
  sps : demod.sps = start.sps
  goldIdx : demod.goldIdx = start.goldIdx
  cancelRequested : demod.cancelRequested = false
  ldpcDec : CacheInit demod.ldpcDec
  modcod : demod.haveWhPrediction = true → ∃ mc ∈ vlsnrModcodTable, demod.modcod = some mc
  pred_lt : demod.predictedWhStart < 2 ^ 32

/-- Header positions are `unsigned int`s. -/
theorem headerSearch_offset_lt (rx : RxStages R) (demod : Demodulator R) (work : List (Cplx R))
    (inLen : ℕ) : (headerSearch rx demod work inLen).offset < 2 ^ 32 := by
  have hacquire : (acquireSearch rx work inLen).offset < 2 ^ 32 := Nat.mod_lt _ (by decide)
  have htrack : (trackSearch rx demod work inLen).offset < 2 ^ 32 := Nat.mod_lt _ (by decide)
  unfold headerSearch
  dsimp only
  split_ifs
  · exact hacquire
  · exact htrack
  · exact hacquire

theorem detected_offset_lt {rx : RxStages R} {demod : Demodulator R} {input : List (Cplx R)}
    {mc : Modcod} {sync : HeaderSync R} (h : detected rx demod input = some (mc, sync)) :
    sync.offset < 2 ^ 32 := by
  unfold detected at h
  extract_lets sync' at h
  split_ifs at h
  obtain ⟨mc', -, hpair⟩ := Option.map_eq_some_iff.mp h
  obtain rfl : sync' = sync := congrArg Prod.snd hpair
  exact headerSearch_offset_lt _ _ _ _

/-- The decoder that a frame gets goes into the cache. -/
theorem frameDecoder_cacheInit {cached : Option LdpcDecoder} (hcached : CacheInit cached)
    {mc : Modcod} (hmc : mc ∈ vlsnrModcodTable) {dec : LdpcDecoder}
    (hdec : frameDecoder cached mc = some dec) : CacheInit (some dec) := by
  intro dec' hdec'
  obtain rfl := Option.some.inj hdec'
  exact ⟨mc, hmc, (frameDecoder_eq_init hcached hmc).symm.trans hdec⟩

theorem DecodeOutcome.history {rx : RxStages R} {start demod : Demodulator R}
    {input : List (Cplx R)} {noiseVar : R} {capacity : ℕ} {returnBbframe : Bool} {call : RxCall R}
    (h : DecodeOutcome rx demod input noiseVar capacity returnBbframe call)
    (hrx : rx.cancelAt = none) (hinv : HistoryInv start demod) : HistoryInv start call.demod := by
  have hcancel : cancelAfter rx demod = false := by
    unfold cancelAfter
    rw [hinv.cancelRequested, hrx]
    rfl
  have hpredict : ∀ {mc : Modcod} {sync : HeaderSync R} (stats : DemodStats R),
      detected rx demod input = some (mc, sync) →
      HistoryInv start (demod.predict mc sync stats) := fun stats hdet =>
    ⟨hinv.rolloff, hinv.sps, hinv.goldIdx, hinv.cancelRequested, hinv.ldpcDec,
      fun _ => ⟨_, detected_mem hdet, rfl⟩, detected_offset_lt hdet⟩
  have hreceived : ∀ {mc : Modcod} {sync : HeaderSync R} (afc : Afc R) {dec : LdpcDecoder}
      (stats : DemodStats R), detected rx demod input = some (mc, sync) →
      frameDecoder demod.ldpcDec mc = some dec →
      HistoryInv start (demod.received mc sync afc dec (cancelAfter rx demod) stats) :=
    fun afc _ stats hdet hdec =>
      ⟨hinv.rolloff, hinv.sps, hinv.goldIdx, hcancel,
        frameDecoder_cacheInit hinv.ldpcDec (detected_mem hdet) hdec,
        fun _ => ⟨_, detected_mem hdet, rfl⟩, detected_offset_lt hdet⟩
  cases h with
  | invalid hnoise => exact hinv
  | unheard hdet =>
    exact ⟨hinv.rolloff, hinv.sps, hinv.goldIdx, hinv.cancelRequested, hinv.ldpcDec, hinv.modcod,
      hinv.pred_lt⟩
  | incomplete hdet => exact hpredict _ hdet
  | failed hdet hdec => exact hreceived _ _ hdet hdec
  | full hdet hdec => exact hreceived _ _ hdet hdec
  | delivered hdet hdec => exact hreceived _ _ hdet hdec

omit [Field R] [LinearOrder R] in
theorem expectFrame_history {start demod : Demodulator R} (h : HistoryInv start demod) :
    HistoryInv start (expectFrame demod).2 := by
  unfold expectFrame
  split_ifs
  · split
    · exact ⟨h.rolloff, h.sps, h.goldIdx, h.cancelRequested, h.ldpcDec, h.modcod, h.pred_lt⟩
    · exact h
  · exact h

omit [LinearOrder R] in
theorem demodLockUpdate_history {start demod : Demodulator R} (h : HistoryInv start demod)
    (success : Bool) : HistoryInv start (demodLockUpdate demod success) := by
  cases success with
  | true =>
    obtain ⟨state, -, hupdate⟩ := demodLockUpdate_success demod
    rw [hupdate]
    exact ⟨h.rolloff, h.sps, h.goldIdx, h.cancelRequested, h.ldpcDec, h.modcod, h.pred_lt⟩
  | false =>
    rcases demodLockUpdate_failure demod with hupdate | hupdate
    · rw [hupdate]
      exact ⟨h.rolloff, h.sps, h.goldIdx, h.cancelRequested, h.ldpcDec, h.modcod, h.pred_lt⟩
    · rw [hupdate]
      exact ⟨h.rolloff, h.sps, h.goldIdx, h.cancelRequested, h.ldpcDec,
        fun hhave => absurd hhave Bool.false_ne_true, h.pred_lt⟩

/-- One operation. -/
theorem HistoryInv.step {start demod : Demodulator R} (h : HistoryInv start demod)
    {op : DemodOp R} (hop : op.uncancelled) : HistoryInv start (demodStep demod op) := by
  cases op with
  | stream rx input output capacity returnBbframe =>
    have happ : HistoryInv start (streamAppend demod input) := by
      obtain ⟨streamCap, happ⟩ := streamAppend_eq demod input
      rw [happ]
      exact ⟨h.rolloff, h.sps, h.goldIdx, h.cancelRequested, h.ldpcDec, h.modcod, h.pred_lt⟩
    have houtcome := demodulateStream_outcome rx demod input output capacity returnBbframe
    show HistoryInv start (demodulateStream rx demod input output capacity returnBbframe).demod
    generalize demodulateStream rx demod input output capacity returnBbframe = call at houtcome
    cases houtcome with
    | overflow hover => exact h
    | waits hroom hwaits => exact happ
    | tooLong hroom hlong => exact happ
    | short hroom hwaits hfew hattempt hret => exact expectFrame_history (hattempt.history hop happ)
    | @removed call hroom hwaits hfew hattempt hret =>
      have h' := demodLockUpdate_history (expectFrame_history (hattempt.history hop happ))
        (decide (call.ret = 0))
      exact ⟨h'.rolloff, h'.sps, h'.goldIdx, h'.cancelRequested, h'.ldpcDec, h'.modcod, h'.pred_lt⟩
  | burst rx input output capacity returnBbframe =>
    show HistoryInv start (decodeBurst rx demod input output capacity returnBbframe).demod
    rw [decodeBurst_eq]
    exact (decodeSymbols_outcome rx demod _ 0 output capacity returnBbframe).history hop h
  | symbols rx input noiseVar output capacity returnBbframe =>
    exact (decodeSymbols_outcome rx demod input noiseVar output capacity returnBbframe).history hop h
  | requestCancel => exact absurd hop not_false
  | setMaxLdpcIterations maxIterations =>
    show HistoryInv start (demodulatorSetMaxLdpcIterations demod maxIterations).2
    unfold demodulatorSetMaxLdpcIterations
    split_ifs
    · exact h
    · exact ⟨h.rolloff, h.sps, h.goldIdx, h.cancelRequested, h.ldpcDec, h.modcod, h.pred_lt⟩

/-- A whole history. -/
theorem HistoryInv.run {start demod : Demodulator R} (h : HistoryInv start demod)
    (ops : List (DemodOp R)) (hops : ∀ op ∈ ops, op.uncancelled) :
    HistoryInv start (demodRun demod ops) := by
  induction ops generalizing demod with
  | nil => exact h
  | cons op ops ih =>
    exact ih (h.step (hops op List.mem_cons_self))
      fun op' hop' => hops op' (List.mem_cons_of_mem op hop')

/-- The prediction invariant of a run, whatever its last header was. -/
theorem PredictionInv.run {demod : Demodulator R} {last : Option ℕ} (h : PredictionInv demod last)
    (ops : List (DemodOp R)) : ∃ last', PredictionInv (demodRun demod ops) last' := by
  induction ops generalizing demod last with
  | nil => exact ⟨last, h⟩
  | cons op ops ih => exact ih (h.step op)

/-! ### Outside of `SEARCH` -/

/-- A call that finds no header. -/
theorem demodulateBbframeSymbols_nosync {rx : RxStages R} {demod : Demodulator R}
    {input : List (Cplx R)} (hcancel : demod.cancelRequested = false)
    (hlen : plheaderLen + vlsnrWhLen ≤ input.length)
    (hconf : (headerSearch rx demod (preCorrect rx demod input) input.length).conf < 9 / 20)
    (output : List Bool) (capacity : ℕ) :
    (demodulateBbframeSymbols rx demod input 0 output capacity).ret = errNosync := by
  have hcleared : ¬ demod.clearStats.cancelRequested = true := by
    show ¬ demod.cancelRequested = true
    rw [hcancel]
    exact Bool.false_ne_true
  have hconf' : (headerSearch rx demod.clearStats (preCorrect rx demod.clearStats input)
      input.length).conf < 9 / 20 := hconf
  unfold demodulateBbframeSymbols
  dsimp only
  rw [if_neg (lt_irrefl 0), if_neg hcleared, if_neg (Nat.not_lt.mpr hlen), if_pos hconf']
  rfl

theorem demodulateSymbols_nosync {rx : RxStages R} {demod : Demodulator R}
    {input : List (Cplx R)} (hcancel : demod.cancelRequested = false)
    (hlen : plheaderLen + vlsnrWhLen ≤ input.length)
    (hconf : (headerSearch rx demod (preCorrect rx demod input) input.length).conf < 9 / 20)
    (userData : List Bool) (capacity : ℕ) :
    (demodulateSymbols rx demod input 0 userData capacity).ret = errNosync := by
  have hret := demodulateBbframeSymbols_nosync hcancel hlen hconf [] ldpcNormal
  unfold demodulateSymbols
  dsimp only
  rw [if_pos (hret.trans_lt (by decide))]
  exact hret

/-- A call that identifies a header answers something else. -/
theorem DecodeOutcome.ret_ne_nosync {rx : RxStages R} {demod : Demodulator R}
    {input : List (Cplx R)} {noiseVar : R} {capacity : ℕ} {returnBbframe : Bool} {call : RxCall R}
    (h : DecodeOutcome rx demod input noiseVar capacity returnBbframe call)
    {p : Modcod × HeaderSync R} (hdet : detected rx demod input = some p) :
    call.ret ≠ errNosync := by
  cases h with
  | invalid hnoise => exact show errParam ≠ errNosync by decide
  | unheard hnone => exact absurd (hnone.symm.trans hdet) (by simp)
  | incomplete => exact show errShort ≠ errNosync by decide
  | failed hdet' hdec hneed he =>
    rcases he with rfl | rfl
    · exact show errCancelled ≠ errNosync by decide
    · exact show errCrc ≠ errNosync by decide
  | full => exact show errShort ≠ errNosync by decide
  | delivered => exact show ok ≠ errNosync by decide

/-- An attempt leaves the state alone, and predicts a header where it has identified one. -/
theorem DecodeOutcome.state_eq {rx : RxStages R} {demod : Demodulator R} {input : List (Cplx R)}
    {noiseVar : R} {capacity : ℕ} {returnBbframe : Bool} {call : RxCall R}
    (h : DecodeOutcome rx demod input noiseVar capacity returnBbframe call)
    (hnoise : 0 ≤ noiseVar) {p : Modcod × HeaderSync R} (hdet : detected rx demod input = some p) :
    call.demod.state = demod.state ∧ call.demod.haveWhPrediction = true := by
  cases h with
  | invalid hneg => exact absurd hneg (not_lt.mpr hnoise)
  | unheard hnone => exact absurd (hnone.symm.trans hdet) (by simp)
  | incomplete => exact ⟨rfl, rfl⟩
  | failed => exact ⟨rfl, rfl⟩
  | full => exact ⟨rfl, rfl⟩
  | delivered => exact ⟨rfl, rfl⟩

end

section
variable {R : Type*} [Field R] [LinearOrder R] [IsStrictOrderedRing R]

/-- A receiver that takes every `sps`-th sample for a symbol, before a burst with its header 379
symbols into the predicted window: with the MODCOD to prefer the correlator is sure of it, and an
acquisition finds no more than a weak peak. -/
def preferringStages : RxStages R where
  const := ⟨1, 1, one_pos, one_pos⟩
  frontEnd _ sps input := (List.range (input.length / sps)).map fun n => input.getD (n * sps) 0
  derotate _ work := work
  coarseBlindCarrier work := work
  headerSync _ len preferred :=
    if preferred = 0 ∨ len < vlsnrWhLen then ⟨119 / 1000, 3751, 4⟩
    else ⟨994 / 1000, 379, preferred⟩
  normalizeInputLevel _ _ work := work
  estimateNoiseVar _ _ _ := 0
  esn0 _ := 0
  afcRaw _ _ _ := 0
  coarseFreqRecover _ _ _ work := work
  residualCarrierTrack _ _ work := work
  ldpc dec _ _ :=
    { ret := 0, output := List.replicate dec.code.k false, iterUsed := 1, vnLlr := [] }
  bch _ codeword := (0, codeword)
  cancelAt := none

theorem preferring_symbols (rolloff : R) (sps : ℕ) (input : List (Cplx R)) :
    (preferringStages.frontEnd rolloff sps input).length = input.length / sps := by
  show ((List.range (input.length / sps)).map _).length = _
  rw [List.length_map, List.length_range]

/-- In `SEARCH` it hears nothing. -/
theorem preferring_search {demod : Demodulator R} (hstate : demod.state = .search)
    (input : List (Cplx R)) :
    (headerSearch preferringStages demod (preCorrect preferringStages demod input)
      input.length).conf < 9 / 20 := by
  rw [headerSearch_search _ hstate]
  show (ite (0 = 0 ∨ _) (⟨119 / 1000, 3751, 4⟩ : HeaderSync R) _).conf < 9 / 20
  rw [if_pos (Or.inl rfl)]
  norm_num

/-- The rows know their index. -/
theorem modcod_index : ∀ mc ∈ vlsnrModcodTable, mc.index ≠ 0 ∧ vlsnrGetModcod mc.index = some mc := by
  decide

/-- With a prediction, and a window of the length of a header, it hears the last MODCOD. -/
theorem preferring_track {demod : Demodulator R} (htracking : demod.tracking = true)
    (hcancel : demod.cancelRequested = false) {mc : Modcod} (hmc : mc ∈ vlsnrModcodTable)
    (hmodcod : demod.modcod = some mc) {input : List (Cplx R)}
    (hlen : plheaderLen + vlsnrWhLen ≤ input.length)
    (hwindow : vlsnrWhLen ≤ trackLen demod input.length) :
    ∃ p, detected preferringStages demod input = some p := by
  obtain ⟨hidx, hrow⟩ := modcod_index mc hmc
  have htrack : trackSearch preferringStages demod (preCorrect preferringStages demod input)
      input.length = ⟨994 / 1000, (379 + trackBase demod) % 2 ^ 32, mc.index⟩ := by
    have hsync : (preferringStages : RxStages R).headerSync
        ((preCorrect preferringStages demod input).drop (trackBase demod))
        (trackLen demod input.length) mc.index = ⟨994 / 1000, 379, mc.index⟩ :=
      if_neg (not_or.mpr ⟨hidx, Nat.not_lt.mpr hwindow⟩)
    unfold trackSearch
    rw [hmodcod]
    dsimp only
    rw [hsync]
  have hsearch : headerSearch preferringStages demod (preCorrect preferringStages demod input)
      input.length = ⟨994 / 1000, (379 + trackBase demod) % 2 ^ 32, mc.index⟩ := by
    unfold headerSearch
    rw [if_pos htracking, htrack]
    exact if_neg (by norm_num)
  refine ⟨(mc, ⟨994 / 1000, (379 + trackBase demod) % 2 ^ 32, mc.index⟩), ?_⟩
  unfold detected
  rw [if_neg (by rw [hcancel]; exact not_or.mpr ⟨Bool.false_ne_true, Nat.not_lt.mpr hlen⟩),
    hsearch]
  dsimp only
  rw [if_neg (by norm_num), hrow]
  rfl

omit [Field R] [LinearOrder R] [IsStrictOrderedRing R] in
/-- There are inputs with such a window. -/
theorem exists_window {demod : Demodulator R} (hpred : demod.predictedWhStart < 2 ^ 32) :
    ∃ n, plheaderLen + vlsnrWhLen ≤ n ∧ vlsnrWhLen ≤ trackLen demod n := by
  have hbase : trackBase demod + 256 < 2 ^ 32 ∨ trackBase demod = 0 := by
    unfold trackBase
    have hr : trackSearchRadius = 256 := rfl
    split_ifs with h
    · exact Or.inl (by omega)
    · exact Or.inr rfl
  have hlen : ∀ n, 896 ≤ (n + 2 ^ 32 - trackBase demod) % 2 ^ 32 → vlsnrWhLen ≤ trackLen demod n := by
    intro n hroom
    unfold trackLen
    dsimp only
    split_ifs
    · exact hroom
    · decide
  by_cases hsmall : trackBase demod < 2 ^ 31
  · refine ⟨trackBase demod + 1408, ?_, hlen _ ?_⟩
    · show 986 ≤ _
      omega
    · omega
  · exact ⟨986, le_rfl, hlen _ (by omega)⟩

/-- A burst that reaches into the window: a locked demodulator identifies a header, and one in
`SEARCH` finds none. -/
theorem preferring_differs {demod : Demodulator R} (fresh : Demodulator R)
    (htracking : demod.tracking = true) (hcancel : demod.cancelRequested = false) {mc : Modcod}
    (hmc : mc ∈ vlsnrModcodTable) (hmodcod : demod.modcod = some mc)
    (hsearch : fresh.state = .search) (hcancel' : fresh.cancelRequested = false) (hsps : fresh.sps = demod.sps)
    (hpos : 0 < demod.sps) {input : List (Cplx R)} {n : ℕ} (hn : input.length = n * demod.sps)
    (hlen : plheaderLen + vlsnrWhLen ≤ n) (hwindow : vlsnrWhLen ≤ trackLen demod n) :
    (demodulate preferringStages fresh input [] 0).ret = errNosync ∧
      (demodulate preferringStages demod input [] 0).ret ≠ errNosync := by
  have hsymbols : ∀ rolloff : R,
      (preferringStages.frontEnd rolloff demod.sps input).length = n := by
    intro rolloff
    rw [preferring_symbols, hn, Nat.mul_div_cancel _ hpos]
  constructor
  · refine demodulateSymbols_nosync hcancel' ?_ (preferring_search hsearch _) [] 0
    rw [hsps, hsymbols]
    exact hlen
  · have hsymbols := hsymbols demod.rolloff
    obtain ⟨p, hdet⟩ := preferring_track htracking hcancel hmc hmodcod (hsymbols.symm ▸ hlen)
      (hsymbols.symm ▸ hwindow)
    exact (demodulateSymbols_outcome preferringStages demod _ 0 [] 0).ret_ne_nosync hdet

/-- A locked demodulator and a fresh one answer some burst differently. -/
theorem locked_burst_differs {start demod : Demodulator R} {last : Option ℕ}
    (hinv : HistoryInv start demod) (hpredicted : PredictionInv demod last)
    (hlocked : demod.state ≠ .search) (fresh : Demodulator R) (hfresh : fresh.state = .search)
    (hcancel : fresh.cancelRequested = false) (hsps : fresh.sps = demod.sps)
    (hpos : 0 < demod.sps) :
    ∃ input : List (Cplx R), (demodulate preferringStages demod input [] 0).ret
      ≠ (demodulate preferringStages fresh input [] 0).ret := by
  obtain ⟨mc, hmc, hmodcod⟩ := hinv.modcod (hpredicted.locked hlocked)
  obtain ⟨n, hlen, hwindow⟩ := exists_window hinv.pred_lt
  obtain ⟨hnosync, hheard⟩ := preferring_differs fresh (hpredicted.tracking_iff.mpr hlocked)
    hinv.cancelRequested hmc hmodcod hfresh hcancel hsps hpos
    (List.length_replicate : (List.replicate (n * demod.sps) (0 : Cplx R)).length = _) hlen hwindow
  exact ⟨_, hnosync.symm ▸ hheard⟩

/-! ### Independence -/

/-- The answer of a call: code, length and output. -/
def SameAnswer (call call' : RxCall R) : Prop :=
  call.ret = call'.ret ∧ call.outputLen = call'.outputLen ∧ call.output = call'.output

omit [IsStrictOrderedRing R] in
/-- What a history of uncancelled calls leaves behind, whatever it was. -/
theorem historyInv_fresh (rolloff : R)
    (sps plScramblingIdx : ℕ) (ops : List (DemodOp R)) (hops : ∀ op ∈ ops, op.uncancelled) :
    HistoryInv (freshDemodulator rolloff sps plScramblingIdx)
      (demodRun (freshDemodulator rolloff sps plScramblingIdx) ops) :=
  HistoryInv.run ⟨rfl, rfl, rfl, rfl, fun dec hdec => absurd hdec (by simp [freshDemodulator]),
    fun hhave => absurd hhave Bool.false_ne_true, show 0 < 2 ^ 32 by decide⟩ ops hops

omit [IsStrictOrderedRing R] in
theorem predictionInv_fresh (rolloff : R)
    (sps plScramblingIdx : ℕ) (ops : List (DemodOp R)) :
    ∃ last, PredictionInv (demodRun (freshDemodulator rolloff sps plScramblingIdx) ops) last := by
  have hstart : PredictionInv (freshDemodulator rolloff sps plScramblingIdx) none :=
    ⟨fun hhave => absurd hhave Bool.false_ne_true, fun hstate => absurd rfl hstate⟩
  exact hstart.run ops

/-- **Burst calls are independent of a history exactly when it ends in `SEARCH`**: only then does
every call give the answer of a freshly initialised demodulator with the same limit. -/
theorem demodBurst_independent_iff {rolloff : R} {sps plScramblingIdx : ℕ} {start : Demodulator R}
    (hinit : demodulatorInit rolloff sps plScramblingIdx = .ok start) (ops : List (DemodOp R))
    (hops : ∀ op ∈ ops, op.uncancelled) :
    let demod := demodRun start ops
    let fresh := { start with maxLdpcIterations := demod.maxLdpcIterations }
    (∀ rx : RxStages R, rx.cancelAt = none →
        (∀ input userData capacity,
          SameAnswer (demodulate rx demod input userData capacity)
            (demodulate rx fresh input userData capacity)) ∧
        ∀ input noiseVar userData capacity,
          SameAnswer (demodulateSymbols rx demod input noiseVar userData capacity)
            (demodulateSymbols rx fresh input noiseVar userData capacity)) ↔
      demod.state = .search := by
  obtain ⟨rfl, hsps, -⟩ := demodulatorInit_ok hinit
  intro demod fresh
  have hinv := historyInv_fresh rolloff sps plScramblingIdx ops hops
  obtain ⟨last, hpredicted⟩ := predictionInv_fresh rolloff sps plScramblingIdx ops
  constructor
  · intro hsame
    by_contra hlocked
    have hpos : 0 < demod.sps := by
      rw [hinv.sps]
      exact (show 0 < 2 by decide).trans_le hsps
    obtain ⟨input, hdiffers⟩ := locked_burst_differs hinv hpredicted hlocked fresh rfl rfl
      hinv.sps.symm hpos
    exact hdiffers ((hsame preferringStages rfl).1 input [] 0).1
  · intro hstate rx hrx
    have halike : SearchAlike demod fresh :=
      ⟨hinv.rolloff, hinv.sps, hinv.goldIdx, rfl, hinv.cancelRequested, hstate, rfl, hinv.ldpcDec,
        fun dec hdec => absurd hdec (by simp [fresh, freshDemodulator])⟩
    refine ⟨fun input userData capacity => ?_, fun input noiseVar userData capacity => ?_⟩
    · have h := demodulateSymbols_congr rx halike (rx.frontEnd demod.rolloff demod.sps input) 0
        userData capacity
      have hsymbols : rx.frontEnd fresh.rolloff fresh.sps input
          = rx.frontEnd demod.rolloff demod.sps input := by
        rw [halike.rolloff, halike.sps]
      unfold demodulate
      rw [hsymbols]
      exact ⟨h.ret, h.outputLen, h.output⟩
    · have h := demodulateSymbols_congr rx halike input noiseVar userData capacity
      exact ⟨h.ret, h.outputLen, h.output⟩

end

/-! ### A streamed frame, then a burst -/

theorem lateHeaderOp_uncancelled : ∀ op ∈ [lateHeaderOp], op.uncancelled := by
  intro op hop
  obtain rfl := List.mem_singleton.mp hop
  exact rfl

/-- The frame of a zero codeword. -/
def zeroFrame (mc : Modcod) : List (Cplx ℚ) :=
  modFrame preferringStages.const mc 0 (List.replicate (txCodedBits mc) false)

/-- It behind 4031 empty symbols, two samples a symbol: its header starts at symbol 4123. -/
def lateBurst (mc : Modcod) : List (Cplx ℚ) :=
  zeroStuff 2 (List.replicate 4031 0 ++ zeroFrame mc)

theorem lateBurst_length : (lateBurst vlsnrModcodTable[8]).length = 20717 * 2 := by
  have hframe : (zeroFrame vlsnrModcodTable[8]).length = 16686 :=
    (modFrame_length _ (List.getElem_mem _) _ _).trans rfl
  rw [lateBurst, zeroStuff_length, List.length_append, List.length_replicate, hframe]

/-- With a header predicted at symbol 4000, the burst is searched from symbol 3744 on, and its
header is found. -/
theorem lateBurst_heard {demod : Demodulator ℚ}
    (hinv : HistoryInv (freshDemodulator (1 / 5) 2 0) demod) (htracking : demod.tracking = true)
    (hpred : demod.predictedWhStart = 4000) :
    let fresh := { freshDemodulator (1 / 5 : ℚ) 2 0 with
      maxLdpcIterations := demod.maxLdpcIterations }
    let input := lateBurst vlsnrModcodTable[8]
    trackBase demod = 3744 ∧ (demodulate preferringStages fresh input [] 0).ret = errNosync ∧
      (demodulate preferringStages demod input [] 0).ret ≠ errNosync := by
  intro fresh input
  have hsps : demod.sps = 2 := hinv.sps
  have hhave : demod.haveWhPrediction = true := by
    unfold Demodulator.tracking at htracking
    exact (Bool.and_eq_true_iff.mp htracking).2
  obtain ⟨mc, hmc, hmodcod⟩ := hinv.modcod hhave
  have hbase : trackBase demod = 3744 := by
    unfold trackBase
    rw [hpred]
    decide
  have hwindow : vlsnrWhLen ≤ trackLen demod 20717 := by
    unfold trackLen
    rw [hbase]
    decide
  have hlen : input.length = 20717 * demod.sps := by rw [hsps, lateBurst_length]
  exact ⟨hbase, preferring_differs fresh htracking hinv.cancelRequested hmc hmodcod rfl rfl
    hinv.sps.symm (by rw [hsps]; decide) hlen (by decide) hwindow⟩

/-- After one streamed frame the burst is not answered as by a fresh demodulator. -/
theorem demodBurst_depends_on_history :
    let start := freshDemodulator (1 / 5 : ℚ) 2 0
    let demod := demodRun start [lateHeaderOp]
    let fresh := { start with maxLdpcIterations := demod.maxLdpcIterations }
    let input := lateBurst vlsnrModcodTable[8]
    demodulatorInit (1 / 5 : ℚ) 2 0 = .ok start ∧ (∀ op ∈ [lateHeaderOp], op.uncancelled) ∧
      trackBase demod = 3744 ∧ (demodulate preferringStages fresh input [] 0).ret = errNosync ∧
      (demodulate preferringStages demod input [] 0).ret ≠ errNosync := by
  have hinv := historyInv_fresh (1 / 5 : ℚ) 2 0 _ lateHeaderOp_uncancelled
  have hrun : demodRun (freshDemodulator (1 / 5 : ℚ) 2 0) [lateHeaderOp]
      = demodStep (freshDemodulator (1 / 5) 2 0) lateHeaderOp := by
    rw [demodRun, List.foldl_cons, List.foldl_nil]
  obtain ⟨htracking, hpred, -⟩ := lateHeaderOp_locks
  rw [← hrun] at htracking hpred
  exact ⟨demodulatorInit_rat, lateHeaderOp_uncancelled, lateBurst_heard hinv htracking hpred⟩

/-- The samples of a short frame, as a burst. -/
def frameBurstOp : DemodOp ℚ :=
  .burst (scriptedStages (fixedSync (plheaderLen + 2) 9) 0) (List.replicate 42000 0) [] ldpcNormal
    true

theorem frameBurst_detected {input : List (Cplx ℚ)}
    (hlen : plheaderLen + vlsnrWhLen ≤ input.length) :
    detected (scriptedStages (fixedSync (plheaderLen + 2) 9) 0) (freshDemodulator (1 / 5) 2 0) input
      = some (vlsnrModcodTable[8], ⟨1, plheaderLen + 2, 9⟩) :=
  detected_scripted rfl hlen rfl (by norm_num) rfl

/-- It is received, but the state is `SEARCH` as before. -/
theorem frameBurstOp_search :
    let demod := demodRun (freshDemodulator (1 / 5 : ℚ) 2 0) [frameBurstOp]
    demod.state = .search ∧ demod.haveWhPrediction = true := by
  rw [demodRun, List.foldl_cons, List.foldl_nil, frameBurstOp, demodStep, decodeBurst_eq]
  refine (decodeSymbols_outcome _ _ _ 0 [] ldpcNormal true).state_eq le_rfl (frameBurst_detected ?_)
  rw [scripted_symbols_length, List.length_replicate]
  exact show 986 ≤ 42000 / 2 by decide

/-- After that burst, bursts are answered as by a fresh demodulator. -/
theorem demodBurst_independent_iff_burst :
    let demod := demodRun (freshDemodulator (1 / 5 : ℚ) 2 0) [frameBurstOp]
    let fresh := { freshDemodulator (1 / 5 : ℚ) 2 0 with
      maxLdpcIterations := demod.maxLdpcIterations }
    demod.haveWhPrediction = true ∧ ∀ input userData capacity,
      SameAnswer (demodulate preferringStages demod input userData capacity)
        (demodulate preferringStages fresh input userData capacity) := by
  obtain ⟨hstate, hhave⟩ := frameBurstOp_search
  have hops : ∀ op ∈ [frameBurstOp], op.uncancelled := by
    intro op hop
    obtain rfl := List.mem_singleton.mp hop
    exact rfl
  exact ⟨hhave, ((demodBurst_independent_iff demodulatorInit_rat _ hops).mpr hstate
    preferringStages rfl).1⟩

end OpenVlsnr
