import OpenVlsnr.DemodStream

/-!
# What a delivered frame removes from the buffer

A call that returns 0 has found its frame in the zero-extended copy, but it removes
`frame_samples` only when that many samples are in the buffer itself
(`demodulateStream_removed`).  The gate lets an attempt on a long frame start with fewer, so a
frame that lacks its last samples can be delivered while only a search step is removed.
-/

namespace OpenVlsnr

section
variable {R : Type*} [Field R] [LinearOrder R]

/-! ### The number of samples removed -/

omit [Field R] [LinearOrder R] in
/-- What an attempt that has identified a frame expects. -/
theorem expectFrame_of_modcod {demod : Demodulator R} (mc : Modcod)
    (hidx : demod.lastStats.modcod ≠ 0) (hmc : demod.modcod = some mc) :
    expectFrame demod
      = (frameLenOf mc * demod.sps, { demod with expectedFrameLen := frameLenOf mc }) := by
  unfold expectFrame
  rw [if_pos hidx, hmc]

/-- A frame that fits is removed; for one that does not, the search step is. -/
theorem removeSamples_frame {sps streamLen : ℕ} (hsps : 0 < sps)
    (hgate : vlsnrFrameShort * sps ≤ streamLen) {mc : Modcod} (hmc : mc ∈ vlsnrModcodTable) :
    removeSamples sps streamLen (frameLenOf mc * sps)
      = if frameLenOf mc * sps ≤ streamLen then frameLenOf mc * sps
        else (acqWindow - vlsnrWhLen) * sps := by
  have hlen : 0 < frameLenOf mc := by
    rw [frameLenOf_eq hmc]
    split_ifs <;> decide
  have hframe : frameLenOf mc * sps ≠ 0 := (Nat.mul_pos hlen hsps).ne'
  have hstep : (acqWindow - vlsnrWhLen) * sps ≤ streamLen :=
    (Nat.mul_le_mul_right sps (by decide)).trans hgate
  have hpos : (acqWindow - vlsnrWhLen) * sps ≠ 0 := (Nat.mul_pos (by decide) hsps).ne'
  unfold removeSamples
  by_cases hfits : frameLenOf mc * sps ≤ streamLen
  · rw [if_pos hfits, if_neg (not_or.mpr ⟨hframe, Nat.not_lt.mpr hfits⟩)]
  · rw [if_neg hfits, if_pos (Or.inr (Nat.not_le.mp hfits))]
    dsimp only
    rw [if_neg (Nat.not_lt.mpr hstep), if_pos hpos]

/-- The search step is shorter than any frame. -/
theorem searchStep_ne_frame {sps : ℕ} (hsps : 0 < sps) {mc : Modcod}
    (hmc : mc ∈ vlsnrModcodTable) : (acqWindow - vlsnrWhLen) * sps ≠ frameLenOf mc * sps := by
  have hlt : acqWindow - vlsnrWhLen < frameLenOf mc := by
    rw [frameLenOf_eq hmc]
    split_ifs <;> decide
  exact (Nat.mul_lt_mul_of_pos_right hlt hsps).ne

/-- A frame is in the buffer when it is short, or when a long frame's samples are there: the gate
sees to short frames. -/
theorem frameLenOf_le_iff {sps streamLen : ℕ} (hgate : vlsnrFrameShort * sps ≤ streamLen)
    {mc : Modcod} (hmc : mc ∈ vlsnrModcodTable) :
    frameLenOf mc * sps ≤ streamLen ↔ mc.set = .set2 ∨ vlsnrFrameLong * sps ≤ streamLen := by
  rw [frameLenOf_eq hmc]
  cases hset : mc.set with
  | set1 =>
    rw [if_pos rfl]
    exact ⟨Or.inr, fun h => h.resolve_left (by decide)⟩
  | set2 =>
    rw [if_neg (by decide)]
    exact ⟨fun _ => Or.inl rfl, fun _ => hgate⟩

/-- An attempt that returns 0 has identified its frame. -/
theorem DecodeOutcome.of_ok {rx : RxStages R} {demod : Demodulator R} {input : List (Cplx R)}
    {noiseVar : R} {capacity : ℕ} {returnBbframe : Bool} {call : RxCall R}
    (h : DecodeOutcome rx demod input noiseVar capacity returnBbframe call)
    (hret : call.ret = ok) :
    ∃ mc sync dec stats, detected rx demod input = some (mc, sync) ∧
      frameDecoder demod.ldpcDec mc = some dec ∧ stats.modcod ≠ 0 ∧
      call.demod
        = demod.received mc sync (frameAfc rx demod input mc sync) dec (cancelAfter rx demod)
            stats := by
  cases h with
  | invalid hnoise => exact absurd (show errParam = ok from hret) (by decide)
  | unheard hdet hneed hcode hstats =>
    have hne : ∀ {ret : ℤ}, ret = errCancelled ∨ ret = errShort ∨ ret = errNosync → ret ≠ ok := by
      rintro ret (rfl | rfl | rfl) <;> decide
    exact absurd hret (hne hcode)
  | incomplete hdet hneed hstats => exact absurd (show errShort = ok from hret) (by decide)
  | failed hdet hdec hneed he hstats =>
    have hne : ∀ {e : ℤ}, e = errCancelled ∨ e = errCrc → e ≠ ok := by
      rintro e (rfl | rfl) <;> decide
    exact absurd hret (hne he)
  | full hdet hdec hneed hcap hstats => exact absurd (show errShort = ok from hret) (by decide)
  | @delivered mc sync dec stats need output hdet hdec hneed hcap hstats =>
    exact ⟨mc, sync, dec, stats, hdet, hdec, hstats ▸ detected_modcodIdx hdet, rfl⟩

/-- The context after a call that returns 0. -/
def Demodulator.delivered (demod : Demodulator R) (mc : Modcod) (state : DemodState) :
    Demodulator R :=
  { demod with
    expectedFrameLen := frameLenOf mc
    state := state
    consecutiveSuccesses := (demod.consecutiveSuccesses + 1) % 2 ^ 32
    consecutiveFailures := 0
    streamBuf := demod.streamBuf.drop
      (removeSamples demod.sps demod.streamBuf.length (frameLenOf mc * demod.sps)) }

/-- **What a call that returns 0 leaves behind.** -/
theorem demodulateStream_of_ok (rx : RxStages R) {demod : Demodulator R}
    (input : List (Cplx R)) (output : List Bool) (capacity : ℕ) (returnBbframe : Bool)
    (hret : (demodulateStream rx demod input output capacity returnBbframe).ret = ok) :
    let appended := streamAppend demod input
    let symbols := streamSymbols rx appended
    ∃ mc sync dec stats state,
      detected rx appended symbols = some (mc, sync) ∧ state ≠ .search ∧
      vlsnrFrameShort * demod.sps ≤ demod.streamBuf.length + input.length ∧
      (demodulateStream rx demod input output capacity returnBbframe).demod
        = (appended.received mc sync (frameAfc rx appended symbols mc sync) dec
            (cancelAfter rx appended) stats).delivered mc state := by
  have h := demodulateStream_outcome rx demod input output capacity returnBbframe
  generalize demodulateStream rx demod input output capacity returnBbframe = call at h hret
  intro appended symbols
  cases h with
  | overflow hover => exact absurd (show errParam = ok from hret) (by decide)
  | waits hroom hwaits => exact absurd (show errShort = ok from hret) (by decide)
  | tooLong hroom hlong => exact absurd (show errParam = ok from hret) (by decide)
  | short hroom hwaits hfew hattempt hshort =>
    exact absurd (show errShort = ok from hret) (by decide)
  | @removed call hroom hwaits hfew hattempt hshort =>
    have hgate := (streamWaits_eq_false hwaits).1
    obtain ⟨streamCap, happ⟩ := streamAppend_eq demod input
    rw [happ] at hgate
    dsimp only at hgate
    rw [List.length_append] at hgate
    obtain ⟨mc, sync, dec, stats, hdet, -, hidx, hdemod⟩ := hattempt.of_ok hret
    have hsuccess : decide (call.ret = 0) = true := decide_eq_true hret
    obtain ⟨state, hstate, hupdate⟩ := demodLockUpdate_success (expectFrame call.demod).2
    refine ⟨mc, sync, dec, stats, state, hdet, hstate, hgate, ?_⟩
    dsimp only
    rw [hsuccess, hupdate, hdemod, expectFrame_of_modcod mc hidx rfl]
    rfl

/-- What a call that returns 0 removes. -/
theorem demodulateStream_removed (rx : RxStages R) {demod : Demodulator R}
    (input : List (Cplx R)) (output : List Bool) (capacity : ℕ) (returnBbframe : Bool)
    (hret : (demodulateStream rx demod input output capacity returnBbframe).ret = ok) :
    ∃ mc sync,
      detected rx (streamAppend demod input) (streamSymbols rx (streamAppend demod input))
        = some (mc, sync) ∧
      vlsnrFrameShort * demod.sps ≤ demod.streamBuf.length + input.length ∧
      (demodulateStream rx demod input output capacity returnBbframe).demod.streamBuf
        = (demod.streamBuf ++ input).drop
            (removeSamples demod.sps (demod.streamBuf.length + input.length)
              (frameLenOf mc * demod.sps)) := by
  obtain ⟨mc, sync, dec, stats, state, hdet, -, hgate, hafter⟩ :=
    demodulateStream_of_ok rx input output capacity returnBbframe hret
  obtain ⟨streamCap, happ⟩ := streamAppend_eq demod input
  refine ⟨mc, sync, hdet, hgate, ?_⟩
  rw [hafter, ← List.length_append, happ]
  rfl

/-- **A delivered frame is removed exactly when its samples are in the buffer.**  After any run,
the detected frame of a call that returns 0 is removed to the sample if and only if it is a short
one or the samples of a long frame are buffered; otherwise only the search step is. -/
theorem demodStream_exact_removal_iff {rolloff : R} {sps plScramblingIdx : ℕ}
    {demod : Demodulator R} (hinit : demodulatorInit rolloff sps plScramblingIdx = .ok demod)
    (ops : List (DemodOp R)) (rx : RxStages R) (input : List (Cplx R)) (output : List Bool)
    (capacity : ℕ) (returnBbframe : Bool)
    (hret : (demodulateStream rx (demodRun demod ops) input output capacity returnBbframe).ret
      = ok) :
    let before := (demodRun demod ops).streamBuf ++ input
    let after := (demodulateStream rx (demodRun demod ops) input output capacity
      returnBbframe).demod.streamBuf
    ∃ mc sync,
      detected rx (streamAppend (demodRun demod ops) input)
          (streamSymbols rx (streamAppend (demodRun demod ops) input)) = some (mc, sync) ∧
      after <:+ before ∧
      (before.length - after.length
          = (plheaderLen + vlsnrHdrLen + (buildLayout mc).fieldLen) * (demodRun demod ops).sps ↔
        mc.set = .set2 ∨ vlsnrFrameLong * (demodRun demod ops).sps ≤ before.length) ∧
      (¬ (mc.set = .set2 ∨ vlsnrFrameLong * (demodRun demod ops).sps ≤ before.length) →
        before.length - after.length = (acqWindow - vlsnrWhLen) * (demodRun demod ops).sps) := by
  have hsps := ((demodulatorInit_inv hinit).run ops).sps_pos
  intro before after
  obtain ⟨mc, sync, hdet, hgate, hafter⟩ :=
    demodulateStream_removed rx input output capacity returnBbframe hret
  rw [← List.length_append] at hgate hafter
  have hmc := detected_mem hdet
  have hremoved := removeSamples_frame hsps hgate hmc
  have hpos : 0 < before.length := (Nat.mul_pos (by decide) hsps).trans_le hgate
  have hcount : before.length - after.length
      = removeSamples (demodRun demod ops).sps before.length
          (frameLenOf mc * (demodRun demod ops).sps) := by
    have hle := (removeSamples_bounds (demodRun demod ops).sps
      (frameLenOf mc * (demodRun demod ops).sps) hpos).2
    rw [show after = _ from hafter, List.length_drop]
    exact Nat.sub_sub_self hle
  refine ⟨mc, sync, hdet, (show after = _ from hafter) ▸ List.drop_suffix _ _, ?_, ?_⟩
  · rw [hcount, hremoved, ← frameLenOf_le_iff hgate hmc]
    show _ = frameLenOf mc * (demodRun demod ops).sps ↔ _
    by_cases hfits : frameLenOf mc * (demodRun demod ops).sps ≤ before.length
    · rw [if_pos hfits]
      exact ⟨fun _ => hfits, fun _ => rfl⟩
    · rw [if_neg hfits]
      exact ⟨fun h => absurd h (searchStep_ne_frame hsps hmc), fun h => absurd h hfits⟩
  · intro hshort
    rw [← frameLenOf_le_iff hgate hmc] at hshort
    rw [hcount, hremoved, if_neg hshort]

end

/-! ### First frames -/

/-- A demodulator that has just received a frame of `mc` with its header at `offset`, `left`
samples still in its buffer. -/
structure LockedOn (demod : Demodulator ℚ) (mc : Modcod) (offset left : ℕ) : Prop where
  sps : demod.sps = 2
  numTaps : demod.numTaps = 65
  state : demod.state ≠ .search
  haveWhPrediction : demod.haveWhPrediction = true
  predictedWhStart : demod.predictedWhStart = offset
  cancelRequested : demod.cancelRequested = false
  expectedFrameLen : demod.expectedFrameLen = frameLenOf mc
  streamBuf : demod.streamBuf = List.replicate left 0

/-- After such a chunk. -/
theorem firstFrame_locks (n offset idx : ℕ) {mc : Modcod}
    (hrow : vlsnrGetModcod idx = some mc) (hgate : vlsnrFrameShort * 2 ≤ n)
    (hfew : n ≤ uintMax - 65) (hoffset : offset ≤ acqWindow)
    (hsymbols : offset + frameLenOf mc ≤ (n + 65) / 2 + 92) :
    LockedOn (demodulateStream (scriptedStages (fixedSync offset idx) 0)
      (freshDemodulator (1 / 5) 2 0) (List.replicate n 0) [] ldpcNormal true).demod mc offset
      (n - removeSamples 2 n (frameLenOf mc * 2)) := by
  obtain ⟨hdet, hret⟩ := firstFrame_delivered n offset idx hrow hgate hfew hoffset hsymbols
  obtain ⟨mc', sync, dec, stats, state, hdet', hstate, -, hafter⟩ :=
    demodulateStream_of_ok _ _ _ _ _ hret
  obtain rfl : mc' = mc := congrArg Prod.fst (Option.some.inj (hdet'.symm.trans hdet))
  obtain rfl : sync = _ := congrArg Prod.snd (Option.some.inj (hdet'.symm.trans hdet))
  obtain ⟨streamCap, happ⟩ := streamAppend_eq (freshDemodulator (1 / 5 : ℚ) 2 0)
    (List.replicate n (0 : Cplx ℚ))
  have hnil : (freshDemodulator (1 / 5 : ℚ) 2 0).streamBuf = [] := rfl
  rw [happ] at hafter
  rw [hafter]
  refine ⟨rfl, rfl, hstate, rfl, rfl, rfl, rfl, ?_⟩
  dsimp only [Demodulator.delivered, Demodulator.received, Demodulator.predict]
  rw [hnil, List.nil_append, List.drop_replicate, List.length_replicate]
  rfl

/-- A long frame, one sample short, as the first one: 66563 of its 66564 samples are buffered, it
is delivered, and 6400 samples are removed. -/
theorem demodStream_removes_search_step :
    let rx := scriptedStages (fixedSync (plheaderLen + 2) 1) 0
    let demod := freshDemodulator (1 / 5 : ℚ) 2 0
    let call := demodulateStream rx demod (List.replicate 66563 0) [] ldpcNormal true
    demodulatorInit (1 / 5 : ℚ) 2 0 = .ok demod ∧ call.ret = ok ∧
      ∃ mc,
        detected rx (streamAppend demod (List.replicate 66563 0))
            (streamSymbols rx (streamAppend demod (List.replicate 66563 0)))
          = some (mc, ⟨1, plheaderLen + 2, 1⟩) ∧
        call.demod.streamBuf = List.replicate (66563 - 6400) 0 ∧
        (plheaderLen + vlsnrHdrLen + (buildLayout mc).fieldLen) * demod.sps = 66564 := by
  obtain ⟨mc, hrow, hset⟩ : ∃ mc, vlsnrGetModcod 1 = some mc ∧ mc.set = .set1 := ⟨_, rfl, rfl⟩
  have hlong : frameLenOf mc = 33282 := by
    rw [frameLenOf_eq (vlsnrGetModcod_mem hrow), if_pos hset]
  have hsymbols : plheaderLen + 2 + frameLenOf mc ≤ (66563 + 65) / 2 + 92 := by
    rw [hlong]
    decide
  obtain ⟨hdet, hret⟩ := firstFrame_delivered 66563 (plheaderLen + 2) 1 hrow (by decide) (by decide) (by decide) hsymbols
  have hbuf := (firstFrame_locks 66563 (plheaderLen + 2) 1 hrow (by decide) (by decide) (by decide)
    hsymbols).streamBuf
  have hcount : removeSamples 2 66563 (33282 * 2) = 6400 := by decide
  rw [hlong, hcount] at hbuf
  exact ⟨demodulatorInit_rat, hret, _, hdet, hbuf, congrArg (· * 2) hlong⟩

/-- A short frame as the first one. -/
theorem demodStream_exact_removal_iff_short :
    let rx := scriptedStages (fixedSync (plheaderLen + 2) 9) 0
    let demod := demodRun (freshDemodulator (1 / 5 : ℚ) 2 0) []
    let before := demod.streamBuf ++ List.replicate 33372 0
    let after := (demodulateStream rx demod (List.replicate 33372 0) [] ldpcNormal
      true).demod.streamBuf
    ∃ mc sync, detected rx (streamAppend demod (List.replicate 33372 0))
        (streamSymbols rx (streamAppend demod (List.replicate 33372 0))) = some (mc, sync) ∧
      (before.length - after.length
          = (plheaderLen + vlsnrHdrLen + (buildLayout mc).fieldLen) * demod.sps ↔
        mc.set = .set2 ∨ vlsnrFrameLong * demod.sps ≤ before.length) := by
  obtain ⟨mc, hrow, hset⟩ : ∃ mc, vlsnrGetModcod 9 = some mc ∧ mc.set = .set2 := ⟨_, rfl, rfl⟩
  have hsymbols : plheaderLen + 2 + frameLenOf mc ≤ (33372 + 65) / 2 + 92 := by
    rw [frameLenOf_eq (vlsnrGetModcod_mem hrow), hset]
    decide
  obtain ⟨-, hret⟩ := firstFrame_delivered 33372 (plheaderLen + 2) 9 hrow (by decide) (by decide) (by decide) hsymbols
  obtain ⟨mc, sync, hdet, -, hiff, -⟩ :=
    demodStream_exact_removal_iff demodulatorInit_rat [] _ _ _ _ _ hret
  exact ⟨mc, sync, hdet, hiff⟩

end OpenVlsnr
