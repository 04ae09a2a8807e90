import OpenVlsnr.DemodWindow

/-!
# Retrying after `SHORT`

A streaming call returns `SHORT` before an attempt, for want of symbols, or because the output
does not fit.  Only the last comes after `dvbs2x_afc_update`, and there the AFC has already counted
the frame: `demodStream_short_retry_iff` says exactly when a `SHORT` leaves lock state, counters and
AFC as they were.  A capacity for the longest BBFRAME is always enough (`outputFits_of_room`).
-/

namespace OpenVlsnr

section
variable {R : Type*} [Field R] [LinearOrder R]

/-- Nothing has changed but that the buffer has grown by what was consumed. -/
structure RetrySafe (demod : Demodulator R) (input : List (Cplx R)) (call : StreamCall R) :
    Prop where
  state : call.demod.state = demod.state
  consecutiveSuccesses : call.demod.consecutiveSuccesses = demod.consecutiveSuccesses
  consecutiveFailures : call.demod.consecutiveFailures = demod.consecutiveFailures
  afc : call.demod.afc = demod.afc
  streamBuf : call.demod.streamBuf = demod.streamBuf ++ input.take call.consumed

/-- The frame that an attempt finds, if the call comes to one, has room in the output. -/
def OutputFits (demod : Demodulator R) (rx : RxStages R) (input : List (Cplx R)) (capacity : ℕ)
    (returnBbframe : Bool) : Prop :=
  ∀ call, symbolCall demod (.stream rx input [] capacity returnBbframe) = some call →
    ∀ need, outputNeed call.rx call.demod call.input 0 returnBbframe = some need →
      need ≤ capacity

omit [Field R] [LinearOrder R] in
/-- Lock state, counters, AFC and buffer of a context. -/
theorem expectFrame_fields (demod : Demodulator R) :
    (expectFrame demod).2.state = demod.state ∧
      (expectFrame demod).2.consecutiveSuccesses = demod.consecutiveSuccesses ∧
      (expectFrame demod).2.consecutiveFailures = demod.consecutiveFailures ∧
      (expectFrame demod).2.afc = demod.afc ∧
      (expectFrame demod).2.streamBuf = demod.streamBuf := by
  unfold expectFrame
  split_ifs
  · split <;> exact ⟨rfl, rfl, rfl, rfl, rfl⟩
  · exact ⟨rfl, rfl, rfl, rfl, rfl⟩

/-- An attempt that ends with `SHORT` changes at most the AFC, and that only for want of room. -/
theorem DecodeOutcome.of_short {rx : RxStages R} {demod : Demodulator R}
    {input : List (Cplx R)} {capacity : ℕ} {returnBbframe : Bool} {call : RxCall R}
    (h : DecodeOutcome rx demod input 0 capacity returnBbframe call)
    (hret : call.ret = errShort) :
    (call.demod.state = demod.state ∧
      call.demod.consecutiveSuccesses = demod.consecutiveSuccesses ∧
      call.demod.consecutiveFailures = demod.consecutiveFailures ∧
      call.demod.streamBuf = demod.streamBuf) ∧
    (call.demod.afc = demod.afc ↔
      demod.state = .search ∨
        ∀ need, outputNeed rx demod input 0 returnBbframe = some need → need ≤ capacity) := by
  have hnone : outputNeed rx demod input 0 returnBbframe = none →
      ∀ need, outputNeed rx demod input 0 returnBbframe = some need → need ≤ capacity := by
    intro hneed need hsome
    rw [hneed] at hsome
    cases hsome
  cases h with
  | invalid hnoise => exact absurd hnoise (lt_irrefl 0)
  | unheard hdet hneed hcode hstats =>
    exact ⟨⟨rfl, rfl, rfl, rfl⟩, fun _ => Or.inr (hnone hneed), fun _ => rfl⟩
  | incomplete hdet hneed hstats =>
    exact ⟨⟨rfl, rfl, rfl, rfl⟩, fun _ => Or.inr (hnone hneed), fun _ => rfl⟩
  | failed hdet hdec hneed he hstats =>
    have hne : ∀ {e : ℤ}, e = errCancelled ∨ e = errCrc → e ≠ errShort := by
      rintro e (rfl | rfl) <;> decide
    exact absurd hret (hne he)
  | @full mc sync dec stats need output hdet hdec hneed hcap hstats =>
    refine ⟨⟨rfl, rfl, rfl, rfl⟩, ?_⟩
    show frameAfc rx demod input mc sync = demod.afc ↔ _
    unfold frameAfc
    by_cases hstate : demod.state = .search
    · rw [if_neg (not_not.mpr hstate)]
      exact ⟨fun _ => Or.inl hstate, fun _ => rfl⟩
    · rw [if_pos hstate]
      refine ⟨fun h => absurd h (afcUpdate_ne _ _), fun h => ?_⟩
      exact absurd (h.resolve_left hstate need hneed) (Nat.not_le.mpr hcap)
  | delivered => exact absurd (show ok = errShort from hret) (by decide)

/-- **When a `SHORT` is safe to retry**, in any state: in `SEARCH`, or when it was not the output
that was short. -/
theorem demodStream_short_retry_iff (rx : RxStages R) (demod : Demodulator R)
    (input : List (Cplx R)) (output : List Bool) (capacity : ℕ) (returnBbframe : Bool)
    (hret : (demodulateStream rx demod input output capacity returnBbframe).ret = errShort) :
    RetrySafe demod input (demodulateStream rx demod input output capacity returnBbframe) ↔
      demod.state = .search ∨ OutputFits demod rx input capacity returnBbframe := by
  have h := demodulateStream_outcome rx demod input output capacity returnBbframe
  generalize demodulateStream rx demod input output capacity returnBbframe = call at h hret
  obtain ⟨streamCap, happ⟩ := streamAppend_eq demod input
  have hall : demod.streamBuf ++ input = demod.streamBuf ++ input.take input.length := by
    rw [List.take_length]
  cases h with
  | overflow hover => exact absurd (show errParam = errShort from hret) (by decide)
  | waits hroom hwaits =>
    refine ⟨fun _ => Or.inr fun call hcall => ?_, fun _ => ?_⟩
    · rw [symbolCall_stream_waits hroom hwaits] at hcall
      cases hcall
    · rw [happ]
      exact ⟨rfl, rfl, rfl, rfl, hall⟩
  | tooLong hroom hlong => exact absurd (show errParam = errShort from hret) (by decide)
  | @short call hroom hwaits hfew hattempt hshort =>
    obtain ⟨⟨hstate, hsucc, hfail, hbuf⟩, hafc⟩ := hattempt.of_short hshort
    obtain ⟨hstate', hsucc', hfail', hafc', hbuf'⟩ := expectFrame_fields call.demod
    have hfits : OutputFits demod rx input capacity returnBbframe ↔
        ∀ need, outputNeed rx (streamAppend demod input)
          (streamSymbols rx (streamAppend demod input)) 0 returnBbframe = some need →
          need ≤ capacity := by
      unfold OutputFits
      rw [symbolCall_stream hroom hwaits hfew]
      exact ⟨fun h => h _ rfl, fun h call hcall => Option.some.inj hcall ▸ h⟩
    have hsame : (streamAppend demod input).state = demod.state ∧
        (streamAppend demod input).consecutiveSuccesses = demod.consecutiveSuccesses ∧
        (streamAppend demod input).consecutiveFailures = demod.consecutiveFailures ∧
        (streamAppend demod input).afc = demod.afc ∧
        (streamAppend demod input).streamBuf = demod.streamBuf ++ input := by
      rw [happ]
      exact ⟨rfl, rfl, rfl, rfl, rfl⟩
    rw [hfits, ← hsame.1, ← hafc, hsame.2.2.2.1]
    refine ⟨fun h => hafc'.symm.trans h.afc, fun h => ⟨?_, ?_, ?_, hafc'.trans h, ?_⟩⟩
    · exact hstate'.trans (hstate.trans hsame.1)
    · exact hsucc'.trans (hsucc.trans hsame.2.1)
    · exact hfail'.trans (hfail.trans hsame.2.2.1)
    · exact (hbuf'.trans (hbuf.trans hsame.2.2.2.2)).trans hall
  | removed hroom hwaits hfew hattempt hshort => exact absurd hret hshort

/-- A capacity for the longest BBFRAME is enough. -/
theorem outputFits_of_room (demod : Demodulator R) (rx : RxStages R) (input : List (Cplx R))
    {capacity : ℕ} (hroom : ∀ mc ∈ vlsnrModcodTable, mc.kBch ≤ capacity) (returnBbframe : Bool) :
    OutputFits demod rx input capacity returnBbframe := by
  intro call hcall need hneed
  unfold outputNeed at hneed
  cases hcontent : frameContent call.rx call.demod call.input 0 with
  | none =>
    rw [hcontent] at hneed
    cases hneed
  | some frame =>
    obtain ⟨mc, bits⟩ := frame
    have hfits := hroom mc (frameContent_mem hcontent)
    rw [hcontent] at hneed
    dsimp only at hneed
    split_ifs at hneed
    · exact (Option.some.inj hneed) ▸ hfits
    · have hlen := bbFrameParseEx_userLen_le (bbFrameInit mc .gs) bits [] 0
      exact (Option.some.inj hneed) ▸ hlen.trans hfits

/-- Outside of `SEARCH`, an attempt that finds its frame but no room has gone through the AFC. -/
theorem demodulateStream_of_noRoom {rx : RxStages R} {demod : Demodulator R}
    {input : List (Cplx R)} {capacity : ℕ} {mc : Modcod} {bits : List Bool} (output : List Bool)
    (hlocked : demod.state ≠ .search)
    (hfew : demod.streamBuf.length + input.length ≤ uintMax - demod.numTaps)
    (hwaits : streamWaits (streamAppend demod input) = false)
    (hcontent : frameContent rx (streamAppend demod input)
      (streamSymbols rx (streamAppend demod input)) 0 = some (mc, bits))
    (hroom : capacity < mc.kBch) :
    (demodulateStream rx demod input output capacity true).ret = errShort ∧
      ¬ RetrySafe demod input (demodulateStream rx demod input output capacity true) := by
  have hneed : outputNeed rx (streamAppend demod input)
      (streamSymbols rx (streamAppend demod input)) 0 true = some mc.kBch := by
    unfold outputNeed
    rw [hcontent]
    rfl
  have h := demodulateStream_outcome rx demod input output capacity true
  generalize demodulateStream rx demod input output capacity true = call at h
  obtain ⟨streamCap, happ⟩ := streamAppend_eq demod input
  have hupdate : ∀ mc' sync, frameAfc rx (streamAppend demod input)
      (streamSymbols rx (streamAppend demod input)) mc' sync ≠ demod.afc := by
    intro mc' sync
    unfold frameAfc
    rw [happ, if_pos hlocked]
    exact afcUpdate_ne _ _
  have hfull : ∀ {call : RxCall R},
      DecodeOutcome rx (streamAppend demod input) (streamSymbols rx (streamAppend demod input)) 0
        capacity true call → call.ret = errShort ∧ call.demod.afc ≠ demod.afc := by
    intro call hattempt
    cases hattempt with
    | invalid hnoise => exact absurd hnoise (lt_irrefl 0)
    | unheard hdet hnone => exact absurd (hneed.symm.trans hnone) (by simp)
    | incomplete hdet hnone => exact absurd (hneed.symm.trans hnone) (by simp)
    | failed hdet hdec hnone => exact absurd (hneed.symm.trans hnone) (by simp)
    | full hdet hdec hsome hcap => exact ⟨rfl, hupdate _ _⟩
    | delivered hdet hdec hsome hcap =>
      obtain rfl := Option.some.inj (hneed.symm.trans hsome)
      exact absurd hcap (Nat.not_le.mpr hroom)
  cases h with
  | overflow hover => exact absurd hover (by omega)
  | waits hfits hwait => exact absurd (hwaits.symm.trans hwait) Bool.false_ne_true
  | tooLong hfits hlong => exact absurd hlong (Nat.not_lt.mpr hfew)
  | @short call hfits hwait hlen hattempt hret =>
    refine ⟨rfl, fun hsafe => (hfull hattempt).2 ?_⟩
    exact (expectFrame_fields call.demod).2.2.2.1.symm.trans hsafe.afc
  | removed hfits hwait hlen hattempt hret => exact absurd (hfull hattempt).1 hret

end

/-! ### A second frame without room -/

/-- A short frame in a chunk of 42000 samples. -/
def shortFrameOp : DemodOp ℚ :=
  .stream (scriptedStages (fixedSync (plheaderLen + 2) 9) 0) (List.replicate 42000 0) []
    ldpcNormal true

/-- What it leaves behind. -/
theorem shortFrameOp_locks : ∃ mc, vlsnrGetModcod 9 = some mc ∧ frameLenOf mc = 16686 ∧
    LockedOn (demodRun (freshDemodulator (1 / 5 : ℚ) 2 0) [shortFrameOp]) mc (plheaderLen + 2)
      (42000 - 33372) := by
  obtain ⟨mc, hrow, hset⟩ : ∃ mc, vlsnrGetModcod 9 = some mc ∧ mc.set = .set2 := ⟨_, rfl, rfl⟩
  have hshort : frameLenOf mc = 16686 := by
    rw [frameLenOf_eq (vlsnrGetModcod_mem hrow), hset]
    rfl
  have hsymbols : plheaderLen + 2 + frameLenOf mc ≤ (42000 + 65) / 2 + 92 := by
    rw [hshort]
    decide
  have hlock := firstFrame_locks 42000 (plheaderLen + 2) 9 hrow (by decide) (by decide) (by decide)
    hsymbols
  have hstep : demodRun (freshDemodulator (1 / 5 : ℚ) 2 0) [shortFrameOp]
      = (demodulateStream (scriptedStages (fixedSync (plheaderLen + 2) 9) 0)
          (freshDemodulator (1 / 5) 2 0) (List.replicate 42000 0) [] ldpcNormal true).demod := by
    rw [demodRun, List.foldl_cons, List.foldl_nil, shortFrameOp, demodStep]
  have hcount : removeSamples 2 42000 (16686 * 2) = 33372 := by decide
  rw [hshort, hcount, ← hstep] at hlock
  exact ⟨mc, hrow, hshort, hlock⟩

/-- Near the start of the input the predicted search begins at 0. -/
theorem headerSearch_fixed {demod : Demodulator ℚ} {mc : Modcod} {offset left : ℕ}
    (h : LockedOn demod mc offset left) (hoffset : offset ≤ trackSearchRadius) (idx : ℕ)
    (bchRet : ℤ) (work : List (Cplx ℚ)) (inLen : ℕ) :
    headerSearch (scriptedStages (fixedSync offset idx) bchRet) demod work inLen
      = ⟨1, offset, idx⟩ := by
  have htracking : demod.tracking = true := by
    unfold Demodulator.tracking
    rw [Bool.and_eq_true]
    exact ⟨decide_eq_true h.state, h.haveWhPrediction⟩
  have hbase : trackBase demod = 0 := by
    unfold trackBase
    rw [h.predictedWhStart, if_neg (Nat.not_lt.mpr hoffset)]
  have hradius : trackSearchRadius = 256 := rfl
  have hsync : trackSearch (scriptedStages (fixedSync offset idx) bchRet) demod work inLen
      = ⟨1, (offset + trackBase demod) % 2 ^ 32, idx⟩ := rfl
  unfold headerSearch
  rw [if_pos htracking, hsync, hbase, Nat.add_zero, Nat.mod_eq_of_lt (by omega)]
  exact if_neg (by norm_num)

/-- A second chunk of `n` samples, with which the next frame is complete. -/
theorem secondFrame_content {demod : Demodulator ℚ} {mc : Modcod} {idx left n : ℕ}
    (h : LockedOn demod mc (plheaderLen + 2) left) (hrow : vlsnrGetModcod idx = some mc)
    (hgate : frameLenOf mc * 2 ≤ left + n) :
    let rx := scriptedStages (fixedSync (plheaderLen + 2) idx) 0
    let appended := streamAppend demod (List.replicate n 0)
    streamWaits appended = false ∧
      ∃ bits, frameContent rx appended (streamSymbols rx appended) 0 = some (mc, bits) := by
  intro rx appended
  have hmc := vlsnrGetModcod_mem hrow
  obtain ⟨hfield, hcases⟩ := frameLenOf_cases hmc
  obtain ⟨streamCap, happ⟩ := streamAppend_eq demod (List.replicate n (0 : Cplx ℚ))
  have hlen : appended.streamBuf.length = left + n := by
    show (streamAppend demod (List.replicate n 0)).streamBuf.length = left + n
    rw [streamAppend_streamBuf, h.streamBuf, List.length_append, List.length_replicate,
      List.length_replicate]
  have hlock : LockedOn { appended with streamBuf := List.replicate left 0 } mc
      (plheaderLen + 2) left := by
    rw [show appended = _ from happ]
    exact ⟨h.sps, h.numTaps, h.state, h.haveWhPrediction, h.predictedWhStart, h.cancelRequested,
      h.expectedFrameLen, rfl⟩
  have hsps : appended.sps = 2 := hlock.sps
  have hexpected : appended.expectedFrameLen = frameLenOf mc := hlock.expectedFrameLen
  have hsymbols : (streamSymbols rx appended).length = (left + n + 65) / 2 := by
    rw [streamSymbols_scripted_length, hlen, hsps, show appended.numTaps = 65 from hlock.numTaps]
  have hdet : detected rx appended (streamSymbols rx appended)
      = some (mc, ⟨1, plheaderLen + 2, idx⟩) := by
    refine detected_scripted hlock.cancelRequested ?_
      (headerSearch_fixed hlock (by decide) idx 0 _ _) (by norm_num) hrow
    rw [hsymbols]
    show 986 ≤ _
    omega
  refine ⟨?_, scripted_content 0 hdet (frameFits_fixed hmc (by decide) ?_)⟩
  · unfold streamWaits
    rw [hlen, hsps, hexpected]
    refine Bool.or_eq_false_iff.mpr ⟨decide_eq_false ?_, ?_⟩
    · have hshort : vlsnrFrameShort = 16686 := rfl
      omega
    · exact Bool.and_eq_false_iff.mpr (Or.inr (decide_eq_false (Nat.not_lt.mpr hgate)))
  · rw [hsymbols]
    show 92 + _ ≤ _
    omega

/-- The same samples again, without room for the frame: the call returns `SHORT`, and the AFC has
counted a frame. -/
theorem demodStream_short_counts_frame :
    let rx := scriptedStages (fixedSync (plheaderLen + 2) 9) 0
    let demod := demodRun (freshDemodulator (1 / 5 : ℚ) 2 0) [shortFrameOp]
    let call := demodulateStream rx demod (List.replicate 42000 0) [] 0 true
    demodulatorInit (1 / 5 : ℚ) 2 0 = .ok (freshDemodulator (1 / 5) 2 0) ∧
      call.ret = errShort ∧ ¬ RetrySafe demod (List.replicate 42000 0) call := by
  obtain ⟨mc, hrow, hshort, hlock⟩ := shortFrameOp_locks
  generalize demodRun (freshDemodulator (1 / 5 : ℚ) 2 0) [shortFrameOp] = demod at hlock ⊢
  have hgate : frameLenOf mc * 2 ≤ 42000 - 33372 + 42000 := by
    rw [hshort]
    omega
  obtain ⟨hwaits, bits, hcontent⟩ := secondFrame_content hlock hrow hgate
  have hfew : demod.streamBuf.length + (List.replicate 42000 (0 : Cplx ℚ)).length
      ≤ uintMax - demod.numTaps := by
    rw [hlock.streamBuf, hlock.numTaps, List.length_replicate, List.length_replicate]
    decide
  have hroom : 0 < mc.kBch :=
    (Nat.zero_lt_succ _).trans (modcod_geometry mc (vlsnrGetModcod_mem hrow)).1
  exact ⟨demodulatorInit_rat,
    demodulateStream_of_noRoom [] hlock.state hfew hwaits hcontent hroom⟩

/-- Three samples more, too few for the next frame. -/
theorem demodulateStream_three {demod : Demodulator ℚ} {mc : Modcod} {offset left : ℕ}
    (h : LockedOn demod mc offset left) (hleft : left + 3 < 33372) :
    (demodulateStream (scriptedStages (fixedSync (plheaderLen + 2) 9) 0) demod [0, 0, 0] [] 0
      true).ret = errShort := by
  have hlen : ([0, 0, 0] : List (Cplx ℚ)).length = 3 := rfl
  have hwaits : streamWaits (streamAppend demod [0, 0, 0]) = true := by
    obtain ⟨streamCap, happ⟩ := streamAppend_eq demod [0, 0, 0]
    unfold streamWaits
    rw [happ, Bool.or_eq_true]
    refine Or.inl (decide_eq_true ?_)
    dsimp only
    rw [h.streamBuf, h.sps, List.length_append, List.length_replicate, hlen]
    exact hleft
  have hroom : ([0, 0, 0] : List (Cplx ℚ)).length ≤ uintMax - demod.streamBuf.length := by
    have hmax : uintMax = 4294967295 := rfl
    rw [h.streamBuf, List.length_replicate, hlen]
    omega
  rw [demodulateStream_waits _ hroom hwaits]

/-- The same after that first frame. -/
theorem demodStream_short_retry_iff_locked :
    let rx := scriptedStages (fixedSync (plheaderLen + 2) 9) 0
    let demod := demodRun (freshDemodulator (1 / 5 : ℚ) 2 0) [shortFrameOp]
    let call := demodulateStream rx demod [0, 0, 0] [] 0 true
    demod.state ≠ .search ∧ call.ret = errShort ∧
      (RetrySafe demod [0, 0, 0] call ↔
        demod.state = .search ∨ OutputFits demod rx [0, 0, 0] 0 true) := by
  obtain ⟨mc, -, -, hlock⟩ := shortFrameOp_locks
  have hret := demodulateStream_three hlock (by decide)
  exact ⟨hlock.state, hret, demodStream_short_retry_iff _ _ _ _ _ _ hret⟩

end OpenVlsnr
