import OpenVlsnr.DemodRemoval

/-!
# The tracking search window

Outside of `SEARCH` the correlator is given the window `search_base .. search_base + search_len`
around the position of the last header.  That position comes from an earlier call, which may have
been given more symbols.  `trackWindow_iff` settles one call; `demodRun_windows_iff` is about a
whole run: its windows all stay inside exactly when no locked call is given symbols that end more
than 256 before the last header that the run has identified.
-/

namespace OpenVlsnr

section
variable {R : Type*} [Field R] [LinearOrder R]

/-! ### One window -/

/-- The window lies inside the input, and the subtraction does not wrap. -/
def WindowInside (demod : Demodulator R) (inLen : ℕ) : Prop :=
  trackBase demod ≤ inLen ∧ trackBase demod + trackLen demod inLen ≤ inLen

omit [Field R] [LinearOrder R] in
theorem trackWindow_iff (demod : Demodulator R) {inLen : ℕ} (hlen : inLen < 2 ^ 32) :
    WindowInside demod inLen ↔ demod.predictedWhStart ≤ inLen + trackSearchRadius := by
  have hbase : trackBase demod ≤ inLen ↔ demod.predictedWhStart ≤ inLen + trackSearchRadius := by
    unfold trackBase
    split_ifs with h
    · exact Nat.sub_le_iff_le_add
    · exact ⟨fun _ => (Nat.not_lt.mp h).trans (Nat.le_add_left _ _), fun _ => Nat.zero_le _⟩
  refine ⟨fun h => hbase.mp h.1, fun h => ⟨hbase.mpr h, ?_⟩⟩
  have hle := hbase.mpr h
  have hroom : (inLen + 2 ^ 32 - trackBase demod) % 2 ^ 32 = inLen - trackBase demod := by
    rw [Nat.sub_add_comm hle, Nat.add_mod_right, Nat.mod_eq_of_lt (by omega)]
  unfold trackLen
  extract_lets searchLen room
  have hsmall : (if searchLen > room then room else searchLen) ≤ inLen - trackBase demod := by
    rw [← hroom]
    split_ifs with h
    · exact le_rfl
    · exact Nat.not_lt.mp h
  omega

/-! ### The symbol-level call behind an operation -/

variable (R) in
/-- A call of `dvbs2x_demodulate_bbframe_symbols_ex`. -/
structure SymbolCall where
  rx : RxStages R
  demod : Demodulator R
  input : List (Cplx R)

/-- The call that an operation makes, if it comes to one. -/
def symbolCall (demod : Demodulator R) : DemodOp R → Option (SymbolCall R)
  | .stream rx input _ _ _ =>
      let appended := streamAppend demod input
      if input.length > uintMax - demod.streamBuf.length then none
      else if streamWaits appended then none
      else if appended.streamBuf.length > uintMax - appended.numTaps then none
      else some ⟨rx, appended, streamSymbols rx appended⟩
  | .burst rx input _ _ _ => some ⟨rx, demod, rx.frontEnd demod.rolloff demod.sps input⟩
  | .symbols rx input noiseVar _ _ _ => if noiseVar < 0 then none else some ⟨rx, demod, input⟩
  | .requestCancel => none
  | .setMaxLdpcIterations _ => none

section
variable {rx : RxStages R} {demod : Demodulator R} {input : List (Cplx R)} {output : List Bool}
  {capacity : ℕ} {returnBbframe : Bool}

theorem symbolCall_stream (hroom : input.length ≤ uintMax - demod.streamBuf.length)
    (hwaits : streamWaits (streamAppend demod input) = false)
    (hfew : demod.streamBuf.length + input.length ≤ uintMax - demod.numTaps) :
    symbolCall demod (.stream rx input output capacity returnBbframe)
      = some ⟨rx, streamAppend demod input, streamSymbols rx (streamAppend demod input)⟩ := by
  have hlong : ¬ (streamAppend demod input).streamBuf.length
      > uintMax - (streamAppend demod input).numTaps := by
    obtain ⟨streamCap, happ⟩ := streamAppend_eq demod input
    rw [happ]
    dsimp only
    rw [List.length_append]
    exact Nat.not_lt.mpr hfew
  exact (if_neg (Nat.not_lt.mpr hroom)).trans
    ((if_neg (Bool.eq_false_iff.mp hwaits)).trans (if_neg hlong))

theorem symbolCall_stream_overflow (hover : input.length > uintMax - demod.streamBuf.length) :
    symbolCall demod (.stream rx input output capacity returnBbframe) = none :=
  if_pos hover

theorem symbolCall_stream_waits (hroom : input.length ≤ uintMax - demod.streamBuf.length)
    (hwaits : streamWaits (streamAppend demod input) = true) :
    symbolCall demod (.stream rx input output capacity returnBbframe) = none :=
  (if_neg (Nat.not_lt.mpr hroom)).trans (if_pos hwaits)

theorem symbolCall_stream_tooLong (hroom : input.length ≤ uintMax - demod.streamBuf.length)
    (hlong : demod.streamBuf.length + input.length > uintMax - demod.numTaps) :
    symbolCall demod (.stream rx input output capacity returnBbframe) = none := by
  have hlong' : (streamAppend demod input).streamBuf.length
      > uintMax - (streamAppend demod input).numTaps := by
    obtain ⟨streamCap, happ⟩ := streamAppend_eq demod input
    rw [happ]
    dsimp only
    rw [List.length_append]
    exact hlong
  refine (if_neg (Nat.not_lt.mpr hroom)).trans ?_
  rw [if_pos hlong']
  exact ite_self none

theorem symbolCall_symbols {noiseVar : R} (hnoise : ¬ noiseVar < 0) :
    symbolCall demod (.symbols rx input noiseVar output capacity returnBbframe)
      = some ⟨rx, demod, input⟩ :=
  if_neg hnoise

end

/-- The call gets as far as the header search. -/
def SymbolCall.searches (call : SymbolCall R) : Prop :=
  call.demod.cancelRequested = false ∧ plheaderLen + vlsnrWhLen ≤ call.input.length

/-- Where the call finds a header. -/
def SymbolCall.header (call : SymbolCall R) : Option ℕ :=
  (detected call.rx call.demod call.input).map fun p => p.2.offset

/-- The last header of a run, `last` being the one before this operation. -/
def nextHeader (demod : Demodulator R) (op : DemodOp R) (last : Option ℕ) : Option ℕ :=
  ((symbolCall demod op).bind SymbolCall.header).or last

/-! ### Runs -/

/-- Every predicted-position search of the run has its window inside the input. -/
def windowsInside : Demodulator R → List (DemodOp R) → Prop
  | _, [] => True
  | demod, op :: ops =>
      (∀ call, symbolCall demod op = some call → call.searches → call.demod.tracking = true →
        WindowInside call.demod call.input.length) ∧
      windowsInside (demodStep demod op) ops

/-- No call outside of `SEARCH` is given symbols that end more than 256 before the last header. -/
def headersNear : Option ℕ → Demodulator R → List (DemodOp R) → Prop
  | _, _, [] => True
  | last, demod, op :: ops =>
      (∀ call, symbolCall demod op = some call → call.searches → demod.state ≠ .search →
        ∀ whStart ∈ last, whStart ≤ call.input.length + trackSearchRadius) ∧
      headersNear (nextHeader demod op last) (demodStep demod op) ops

/-- Every symbol count of the run is an `unsigned int`. -/
def symbolCountsFit : Demodulator R → List (DemodOp R) → Prop
  | _, [] => True
  | demod, op :: ops =>
      (∀ call, symbolCall demod op = some call → call.input.length < 2 ^ 32) ∧
      symbolCountsFit (demodStep demod op) ops

/-- A prediction is the last header of the run, and there is one whenever the state is not
`SEARCH`. -/
structure PredictionInv (demod : Demodulator R) (last : Option ℕ) : Prop where
  last_eq : demod.haveWhPrediction = true → last = some demod.predictedWhStart
  locked : demod.state ≠ .search → demod.haveWhPrediction = true

omit [Field R] [LinearOrder R] in
/-- In step with the invariant, the branch is taken exactly outside of `SEARCH`. -/
theorem PredictionInv.tracking_iff {demod : Demodulator R} {last : Option ℕ}
    (h : PredictionInv demod last) : demod.tracking = true ↔ demod.state ≠ .search := by
  unfold Demodulator.tracking
  rw [Bool.and_eq_true]
  exact ⟨fun h' => of_decide_eq_true h'.1, fun h' => ⟨decide_eq_true h', h.locked h'⟩⟩

/-! ### The invariant -/

omit [Field R] [LinearOrder R] in
/-- Only three fields matter. -/
theorem PredictionInv.congr {demod demod' : Demodulator R} {last : Option ℕ}
    (h : PredictionInv demod last) (hstate : demod'.state = demod.state)
    (hhave : demod'.haveWhPrediction = demod.haveWhPrediction)
    (hpred : demod'.predictedWhStart = demod.predictedWhStart) : PredictionInv demod' last := by
  constructor
  · rw [hhave, hpred]
    exact h.last_eq
  · rw [hstate, hhave]
    exact h.locked

omit [Field R] [LinearOrder R] in
theorem expectFrame_prediction {demod : Demodulator R} {last : Option ℕ}
    (h : PredictionInv demod last) : PredictionInv (expectFrame demod).2 last := by
  unfold expectFrame
  split_ifs
  · split
    · exact h.congr rfl rfl rfl
    · exact h
  · exact h

omit [Field R] [LinearOrder R] in
theorem expectFrame_haveWhPrediction (demod : Demodulator R) :
    (expectFrame demod).2.haveWhPrediction = demod.haveWhPrediction := by
  unfold expectFrame
  split_ifs
  · split <;> rfl
  · rfl

omit [LinearOrder R] in
/-- A success needs an identified header; a failure may forget the prediction with the lock. -/
theorem demodLockUpdate_prediction {demod : Demodulator R} {last : Option ℕ} {success : Bool}
    (h : PredictionInv demod last) (hsuccess : success = true → demod.haveWhPrediction = true) :
    PredictionInv (demodLockUpdate demod success) last := by
  cases success with
  | true =>
    obtain ⟨state, -, hupdate⟩ := demodLockUpdate_success demod
    rw [hupdate]
    exact ⟨h.last_eq, fun _ => hsuccess rfl⟩
  | false =>
    rcases demodLockUpdate_failure demod with hupdate | hupdate
    · rw [hupdate]
      exact h.congr rfl rfl rfl
    · rw [hupdate]
      exact ⟨fun hhave => absurd hhave Bool.false_ne_true, fun hstate => absurd rfl hstate⟩

/-- An attempt: its header, if it identifies one, is the new prediction. -/
theorem DecodeOutcome.prediction {rx : RxStages R} {demod : Demodulator R}
    {input : List (Cplx R)} {noiseVar : R} {capacity : ℕ} {returnBbframe : Bool} {call : RxCall R}
    (h : DecodeOutcome rx demod input noiseVar capacity returnBbframe call)
    (hnoise : ¬ noiseVar < 0) {last : Option ℕ} (hinv : PredictionInv demod last) :
    PredictionInv call.demod ((SymbolCall.mk rx demod input).header.or last) ∧
      (call.ret = ok → call.demod.haveWhPrediction = true) := by
  have hsome : ∀ {demod' : Demodulator R} {mc : Modcod} {sync : HeaderSync R},
      detected rx demod input = some (mc, sync) → demod'.haveWhPrediction = true →
      demod'.predictedWhStart = sync.offset →
      PredictionInv demod' ((SymbolCall.mk rx demod input).header.or last) ∧
        demod'.haveWhPrediction = true := by
    intro demod' mc sync hdet hhave hpred
    have hheader : (SymbolCall.mk rx demod input).header = some sync.offset := by
      show (detected rx demod input).map _ = _
      rw [hdet]
      rfl
    refine ⟨⟨fun _ => ?_, fun _ => hhave⟩, hhave⟩
    rw [hheader, hpred]
    rfl
  cases h with
  | invalid h => exact absurd h hnoise
  | unheard hdet hneed hret hstats =>
    have hheader : (SymbolCall.mk rx demod input).header = none := by
      show (detected rx demod input).map _ = _
      rw [hdet]
      rfl
    have hne : ∀ {ret : ℤ}, ret = errCancelled ∨ ret = errShort ∨ ret = errNosync → ret ≠ ok := by
      rintro ret (rfl | rfl | rfl) <;> decide
    rw [hheader]
    exact ⟨hinv.congr rfl rfl rfl, fun hok => absurd hok (hne hret)⟩
  | incomplete hdet => exact (hsome hdet rfl rfl).imp_right fun hhave _ => hhave
  | failed hdet => exact (hsome hdet rfl rfl).imp_right fun hhave _ => hhave
  | full hdet => exact (hsome hdet rfl rfl).imp_right fun hhave _ => hhave
  | delivered hdet => exact (hsome hdet rfl rfl).imp_right fun hhave _ => hhave

/-- A stream call: the append, the attempt, the removal and the lock. -/
theorem PredictionInv.stream {demod : Demodulator R} {last : Option ℕ}
    (h : PredictionInv demod last) (rx : RxStages R) (input : List (Cplx R)) (output : List Bool)
    (capacity : ℕ) (returnBbframe : Bool) :
    PredictionInv (demodulateStream rx demod input output capacity returnBbframe).demod
      (nextHeader demod (.stream rx input output capacity returnBbframe) last) := by
  have hzero : ¬ (0 : R) < 0 := lt_irrefl 0
  have happ : PredictionInv (streamAppend demod input) last := by
    obtain ⟨streamCap, happ⟩ := streamAppend_eq demod input
    rw [happ]
    exact h.congr rfl rfl rfl
  have houtcome := demodulateStream_outcome rx demod input output capacity returnBbframe
  generalize demodulateStream rx demod input output capacity returnBbframe = call at houtcome
  unfold nextHeader
  cases houtcome with
  | overflow hover =>
    rw [symbolCall_stream_overflow hover]
    exact h
  | waits hroom hwaits =>
    rw [symbolCall_stream_waits hroom hwaits]
    exact happ
  | tooLong hroom hlong =>
    rw [symbolCall_stream_tooLong hroom hlong]
    exact happ
  | short hroom hwaits hfew hattempt hret =>
    rw [symbolCall_stream hroom hwaits hfew]
    exact expectFrame_prediction (hattempt.prediction hzero happ).1
  | @removed call hroom hwaits hfew hattempt hret =>
    rw [symbolCall_stream hroom hwaits hfew]
    obtain ⟨hinv, hok⟩ := hattempt.prediction hzero happ
    have hexpect := expectFrame_prediction hinv
    have hhave : decide (call.ret = 0) = true →
        (expectFrame call.demod).2.haveWhPrediction = true := by
      intro hsuccess
      rw [expectFrame_haveWhPrediction]
      exact hok (of_decide_eq_true hsuccess)
    exact (demodLockUpdate_prediction hexpect hhave).congr rfl rfl rfl

/-- One operation. -/
theorem PredictionInv.step {demod : Demodulator R} {last : Option ℕ}
    (h : PredictionInv demod last) (op : DemodOp R) :
    PredictionInv (demodStep demod op) (nextHeader demod op last) := by
  have hzero : ¬ (0 : R) < 0 := lt_irrefl 0
  cases op with
  | stream rx input output capacity returnBbframe =>
    exact h.stream rx input output capacity returnBbframe
  | burst rx input output capacity returnBbframe =>
    show PredictionInv (decodeBurst rx demod input output capacity returnBbframe).demod _
    rw [decodeBurst_eq]
    exact ((decodeSymbols_outcome rx demod _ 0 output capacity returnBbframe).prediction hzero h).1
  | symbols rx input noiseVar output capacity returnBbframe =>
    have houtcome := decodeSymbols_outcome rx demod input noiseVar output capacity returnBbframe
    by_cases hnoise : noiseVar < 0
    · -- rejected before anything is read
      have hcall : symbolCall demod (.symbols rx input noiseVar output capacity returnBbframe)
          = none := if_pos hnoise
      unfold nextHeader
      rw [hcall]
      show PredictionInv (decodeSymbols rx demod input noiseVar output capacity
        returnBbframe).demod last
      rw [decodeSymbols_of_invalid hnoise]
      exact h
    · unfold nextHeader
      rw [symbolCall_symbols hnoise]
      exact (houtcome.prediction hnoise h).1
  | requestCancel => exact h.congr rfl rfl rfl
  | setMaxLdpcIterations maxIterations =>
    show PredictionInv (demodulatorSetMaxLdpcIterations demod maxIterations).2 last
    unfold demodulatorSetMaxLdpcIterations
    split_ifs
    · exact h
    · exact h.congr rfl rfl rfl

/-! ### Whole runs -/

/-- The context of the symbol-level call agrees with the one before the operation. -/
theorem symbolCall_demod {demod : Demodulator R} {op : DemodOp R} {call : SymbolCall R}
    (h : symbolCall demod op = some call) : ∃ streamBuf streamCap, call.demod
      = { demod with streamBuf := streamBuf, streamCap := streamCap } := by
  cases op with
  | stream rx input output capacity returnBbframe =>
    obtain ⟨streamCap, happ⟩ := streamAppend_eq demod input
    dsimp only [symbolCall] at h
    split_ifs at h
    cases h
    exact ⟨_, _, happ⟩
  | burst rx input output capacity returnBbframe =>
    cases h
    exact ⟨demod.streamBuf, demod.streamCap, rfl⟩
  | symbols rx input noiseVar output capacity returnBbframe =>
    dsimp only [symbolCall] at h
    split_ifs at h
    cases h
    exact ⟨demod.streamBuf, demod.streamCap, rfl⟩
  | requestCancel => cases h
  | setMaxLdpcIterations maxIterations => cases h

/-- By induction on the run, the invariant carried along. -/
theorem windowsInside_iff {demod : Demodulator R} {last : Option ℕ}
    (h : PredictionInv demod last) (ops : List (DemodOp R)) (hfit : symbolCountsFit demod ops) :
    windowsInside demod ops ↔ headersNear last demod ops := by
  induction ops generalizing demod last with
  | nil => exact Iff.rfl
  | cons op ops ih =>
    obtain ⟨hlen, hrest⟩ := hfit
    refine and_congr ?_ (ih (h.step op) hrest)
    refine forall₃_congr fun call hcall hsearches => ?_
    obtain ⟨streamBuf, streamCap, hdemod⟩ := symbolCall_demod hcall
    have hinv : PredictionInv call.demod last := by
      rw [hdemod]
      exact h.congr rfl rfl rfl
    have hstate : call.demod.state = demod.state := by rw [hdemod]
    rw [trackWindow_iff call.demod (hlen call hcall), hinv.tracking_iff, hstate]
    refine forall_congr' fun hlocked => ?_
    have hlast := hinv.last_eq (hinv.locked (hstate ▸ hlocked))
    rw [hlast]
    exact ⟨fun hnear w hw => Option.mem_some_iff.mp hw ▸ hnear,
      fun hnear => hnear _ (Option.mem_some_iff.mpr rfl)⟩

/-- **The tracking window stays inside the input exactly when no locked call is given symbols that
end more than 256 before the last header found.** -/
theorem demodRun_windows_iff {rolloff : R} {sps plScramblingIdx : ℕ} {demod : Demodulator R}
    (hinit : demodulatorInit rolloff sps plScramblingIdx = .ok demod) (ops : List (DemodOp R))
    (hfit : symbolCountsFit demod ops) : windowsInside demod ops ↔ headersNear none demod ops := by
  obtain ⟨rfl, -⟩ := demodulatorInit_ok hinit
  refine windowsInside_iff ⟨fun hhave => ?_, fun hstate => ?_⟩ ops hfit
  · exact absurd hhave Bool.false_ne_true
  · exact absurd rfl hstate

end

/-! ### A header near the end of the acquisition window, then a short burst -/

/-- A short frame whose header starts at symbol 4000, in a chunk of 42000 samples. -/
def lateHeaderOp : DemodOp ℚ :=
  .stream (scriptedStages (fixedSync 4000 9) 0) (List.replicate 42000 0) [] ldpcNormal true

/-- A burst of the least number of symbols that is searched at all. -/
def shortBurstOp : DemodOp ℚ :=
  .symbols (scriptedStages (fixedSync 0 9) 0) (List.replicate 986 0) 0 [] ldpcNormal true

theorem symbolCall_shortBurst (demod : Demodulator ℚ) : symbolCall demod shortBurstOp
    = some ⟨scriptedStages (fixedSync 0 9) 0, demod, List.replicate 986 0⟩ := by
  unfold shortBurstOp
  exact symbolCall_symbols (lt_irrefl 0)

/-- What the first call leaves behind. -/
theorem lateHeaderOp_locks :
    (demodStep (freshDemodulator (1 / 5 : ℚ) 2 0) lateHeaderOp).tracking = true ∧
      (demodStep (freshDemodulator (1 / 5 : ℚ) 2 0) lateHeaderOp).predictedWhStart = 4000 ∧
      (demodStep (freshDemodulator (1 / 5 : ℚ) 2 0) lateHeaderOp).cancelRequested = false := by
  obtain ⟨mc, hrow, hset⟩ : ∃ mc, vlsnrGetModcod 9 = some mc ∧ mc.set = .set2 := ⟨_, rfl, rfl⟩
  have hsymbols : 4000 + frameLenOf mc ≤ (42000 + 65) / 2 + 92 := by
    rw [frameLenOf_eq (vlsnrGetModcod_mem hrow), hset]
    decide
  have hlock := firstFrame_locks 42000 4000 9 hrow (by decide) (by decide) (by decide) hsymbols
  rw [lateHeaderOp, demodStep]
  refine ⟨?_, hlock.predictedWhStart, hlock.cancelRequested⟩
  unfold Demodulator.tracking
  rw [Bool.and_eq_true]
  exact ⟨decide_eq_true hlock.state, hlock.haveWhPrediction⟩

/-- After a streamed frame with its header at 4000, a burst of 986 symbols is searched from 3744
on. -/
theorem demodRun_window_outside :
    demodulatorInit (1 / 5 : ℚ) 2 0 = .ok (freshDemodulator (1 / 5) 2 0) ∧
      ¬ windowsInside (freshDemodulator (1 / 5 : ℚ) 2 0) [lateHeaderOp, shortBurstOp] := by
  refine ⟨demodulatorInit_rat, fun hinside => ?_⟩
  obtain ⟨htracking, hpred, hcancel⟩ := lateHeaderOp_locks
  obtain ⟨-, hsecond, -⟩ := hinside
  generalize demodStep (freshDemodulator (1 / 5 : ℚ) 2 0) lateHeaderOp = demod at *
  have hlen : (List.replicate 986 (0 : Cplx ℚ)).length = 986 := List.length_replicate
  have hwindow := hsecond _ (symbolCall_shortBurst demod) ⟨hcancel, hlen.ge⟩ htracking
  rw [hlen, trackWindow_iff _ (by decide), hpred] at hwindow
  exact absurd hwindow (by decide)

/-- The symbols of that chunk. -/
theorem lateHeaderOp_fits {call : SymbolCall ℚ}
    (hcall : symbolCall (freshDemodulator (1 / 5 : ℚ) 2 0) lateHeaderOp = some call) :
    call.input.length < 2 ^ 32 := by
  obtain ⟨streamCap, happ⟩ := streamAppend_eq (freshDemodulator (1 / 5 : ℚ) 2 0)
    (List.replicate 42000 (0 : Cplx ℚ))
  dsimp only [symbolCall, lateHeaderOp] at hcall
  split_ifs at hcall
  obtain rfl := Option.some.inj hcall
  have hnil : (freshDemodulator (1 / 5 : ℚ) 2 0).streamBuf = [] := rfl
  rw [streamSymbols_scripted_length, happ, hnil, List.nil_append, List.length_replicate]
  exact show (42000 + 65) / 2 < 2 ^ 32 by decide

/-- A burst that reaches behind the header of that frame. -/
def longBurstOp : DemodOp ℚ :=
  .symbols (scriptedStages (fixedSync 256 9) 0) (List.replicate 5000 0) 0 [] ldpcNormal true

/-- After the same frame, a burst of 5000 symbols is searched where the frame had its header. -/
theorem demodRun_windows_iff_tracked :
    let start := freshDemodulator (1 / 5 : ℚ) 2 0
    (demodStep start lateHeaderOp).tracking = true ∧
      trackBase (demodStep start lateHeaderOp) = 3744 ∧
      (windowsInside start [lateHeaderOp, longBurstOp] ↔
        headersNear none start [lateHeaderOp, longBurstOp]) ∧
      ∃ call, symbolCall (demodStep start lateHeaderOp) longBurstOp = some call ∧ call.searches := by
  intro start
  obtain ⟨htracking, hpred, hcancel⟩ := lateHeaderOp_locks
  have hlen : (List.replicate 5000 (0 : Cplx ℚ)).length = 5000 := List.length_replicate
  have hburst : ∀ demod, symbolCall demod longBurstOp
      = some ⟨scriptedStages (fixedSync 256 9) 0, demod, List.replicate 5000 0⟩ := by
    intro demod
    unfold longBurstOp
    exact symbolCall_symbols (lt_irrefl 0)
  have hfit : symbolCountsFit start [lateHeaderOp, longBurstOp] := by
    refine ⟨fun call hcall => ?_, fun call hcall => ?_, trivial⟩
    · exact lateHeaderOp_fits hcall
    · obtain rfl := Option.some.inj ((hburst _).symm.trans hcall)
      rw [hlen]
      decide
  refine ⟨htracking, ?_, demodRun_windows_iff demodulatorInit_rat _ hfit, _, hburst _, hcancel, ?_⟩
  · unfold trackBase
    rw [hpred]
    decide
  · rw [hlen]
    decide

end OpenVlsnr
