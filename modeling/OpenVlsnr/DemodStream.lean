import OpenVlsnr.DemodOutcome

/-!
# The streaming receiver (`demodulate_stream_ex`)

The samples that a call consumes are appended to `stream_buf`; a decode attempt runs on a copy
with `num_taps` zeros behind it; what the attempt has dealt with is removed from the front.
`StreamOutcome` lists the exits of a call.  A run is any sequence of streaming calls, burst
calls, cancellation requests and changes of the iteration limit, each call with stages of its own.

`demodStream_ownership` is about the buffer over a whole run: it is a suffix of what has been
consumed, a call that returns `SHORT` removes nothing, any other attempt removes something, and so
draining the buffer ends.
-/

namespace OpenVlsnr

/-! ### The capacity of the buffer -/

/-- The doubling loop, `fuel` rounds of it. -/
def growCapLoop (need : ℕ) : ℕ → ℕ → ℕ
  | 0, newCap => newCap
  | fuel + 1, newCap =>
      if newCap < need then
        if newCap > uintMax / 2 then need else growCapLoop need fuel (newCap * 2)
      else newCap

/-- `new_cap`.  Doubling an `unsigned int` that is not zero reaches `UINT_MAX / 2` in 32 rounds. -/
def growCap (streamCap need : ℕ) : ℕ :=
  growCapLoop need 33 (if streamCap ≠ 0 then streamCap else 4096)

/-- The loop ends by one of its own exits, and the result holds what is needed. -/
theorem growCapLoop_spec {need : ℕ} (hneed : need ≤ uintMax) (fuel : ℕ) {newCap : ℕ}
    (hcap : newCap ≤ uintMax) (hfuel : uintMax / 2 < newCap * 2 ^ (fuel - 1)) (hpos : 0 < fuel) :
    need ≤ growCapLoop need fuel newCap ∧ growCapLoop need fuel newCap ≤ uintMax := by
  induction fuel generalizing newCap with
  | zero => exact absurd hpos (lt_irrefl 0)
  | succ fuel ih =>
    rw [growCapLoop]
    by_cases hsmall : newCap < need
    · rw [if_pos hsmall]
      by_cases hbig : newCap > uintMax / 2
      · rw [if_pos hbig]
        exact ⟨le_rfl, hneed⟩
      · rw [if_neg hbig]
        -- not yet beyond half of the range, so there are rounds left
        have hleft : 0 < fuel := by
          rcases Nat.eq_zero_or_pos fuel with rfl | h
          · rw [Nat.zero_add, Nat.sub_self, pow_zero, mul_one] at hfuel
            exact absurd hfuel hbig
          · exact h
        have hdouble : newCap * 2 ≤ uintMax := by omega
        have hpow : newCap * 2 * 2 ^ (fuel - 1) = newCap * 2 ^ (fuel + 1 - 1) := by
          obtain ⟨k, rfl⟩ : ∃ k, fuel = k + 1 := ⟨fuel - 1, by omega⟩
          rw [Nat.add_sub_cancel, Nat.add_sub_cancel, pow_succ]
          ring
        exact ih hdouble (hpow ▸ hfuel) hleft
    · rw [if_neg hsmall]
      exact ⟨Nat.not_lt.mp hsmall, hcap⟩

theorem growCap_spec {streamCap need : ℕ} (hneed : need ≤ uintMax) (hcap : streamCap ≤ uintMax) :
    need ≤ growCap streamCap need ∧ growCap streamCap need ≤ uintMax := by
  have hmax : uintMax = 4294967295 := rfl
  unfold growCap
  by_cases hzero : streamCap ≠ 0
  · rw [if_pos hzero]
    exact growCapLoop_spec hneed 33 hcap (by omega) (by omega)
  · rw [if_neg hzero]
    exact growCapLoop_spec hneed 33 (by omega) (by omega) (by omega)

section
variable {R : Type*} [Field R] [LinearOrder R]

/-! ### The call -/

/-- What `demodulate_stream_ex` returns and changes. -/
structure StreamCall (R : Type*) where
  ret : ℤ
  demod : Demodulator R
  output : List Bool
  outputLen : ℕ
  consumed : ℕ

/-- The samples that a call consumes. -/
def streamAppend (demod : Demodulator R) (input : List (Cplx R)) : Demodulator R :=
  if input.length = 0 then demod
  else
    let need := demod.streamBuf.length + input.length
    { demod with
      streamBuf := demod.streamBuf ++ input
      streamCap := if need > demod.streamCap then growCap demod.streamCap need
        else demod.streamCap }

/-- The two length gates before a decode attempt. -/
def streamWaits (demod : Demodulator R) : Bool :=
  demod.streamBuf.length < vlsnrFrameShort * demod.sps ||
    (demod.expectedFrameLen ≠ 0 &&
      demod.streamBuf.length < demod.expectedFrameLen * demod.sps)

/-- The attempt, on the zero-extended copy. -/
def decodeBurst (rx : RxStages R) (demod : Demodulator R) (input : List (Cplx R))
    (output : List Bool) (outputCapacity : ℕ) (returnBbframe : Bool) : RxCall R :=
  if returnBbframe then demodulateBbframe rx demod input output outputCapacity
  else demodulate rx demod input output outputCapacity

def decodeBuf (demod : Demodulator R) : List (Cplx R) :=
  demod.streamBuf ++ List.replicate demod.numTaps 0

/-- `expected_frame_len` of a MODCOD. -/
def frameLenOf (mc : Modcod) : ℕ := plheaderLen + vlsnrHdrLen + (buildLayout mc).fieldLen

theorem frameLenOf_eq {mc : Modcod} (hmc : mc ∈ vlsnrModcodTable) :
    frameLenOf mc = if mc.set = .set1 then vlsnrFrameLong else vlsnrFrameShort :=
  (modcod_layout mc hmc).2.2.2

/-- The numbers behind it, and behind the geometry of the headers. -/
theorem frameLenOf_cases {mc : Modcod} (hmc : mc ∈ vlsnrModcodTable) :
    frameLenOf mc = 990 + (buildLayout mc).fieldLen ∧
      ((mc.set = .set1 ∧ frameLenOf mc = 33282) ∨ (mc.set = .set2 ∧ frameLenOf mc = 16686)) := by
  have h := frameLenOf_eq hmc
  refine ⟨rfl, ?_⟩
  cases hset : mc.set with
  | set1 =>
    rw [hset, if_pos rfl] at h
    exact Or.inl ⟨rfl, h⟩
  | set2 =>
    rw [hset, if_neg (by decide)] at h
    exact Or.inr ⟨rfl, h⟩

/-- `frame_samples`, and the new `expected_frame_len`, after an attempt. -/
def expectFrame (demod : Demodulator R) : ℕ × Demodulator R :=
  if demod.lastStats.modcod ≠ 0 then
    match demod.modcod with
    | some mc =>
        (frameLenOf mc * demod.sps, { demod with expectedFrameLen := frameLenOf mc })
    | none => (0, demod)
  else (0, demod)

/-- The number of samples to remove. -/
def removeSamples (sps streamLen frameSamples : ℕ) : ℕ :=
  if frameSamples = 0 ∨ frameSamples > streamLen then
    let searched := (acqWindow - vlsnrWhLen) * sps
    let searched := if searched > streamLen then streamLen else searched
    if searched ≠ 0 then searched else 1
  else frameSamples

def dropSamples (demod : Demodulator R) (n : ℕ) : Demodulator R :=
  { demod with streamBuf := demod.streamBuf.drop n }

/-- `demodulate_stream_ex`. -/
def demodulateStream (rx : RxStages R) (demod : Demodulator R) (input : List (Cplx R))
    (output : List Bool) (outputCapacity : ℕ) (returnBbframe : Bool) : StreamCall R :=
  if input.length > uintMax - demod.streamBuf.length then ⟨errParam, demod, output, 0, 0⟩
  else
    let demod := streamAppend demod input
    let consumed := input.length
    if streamWaits demod then ⟨errShort, demod, output, 0, consumed⟩
    else if demod.streamBuf.length > uintMax - demod.numTaps then
      ⟨errParam, demod, output, 0, consumed⟩
    else
      let call := decodeBurst rx demod (decodeBuf demod) output outputCapacity returnBbframe
      let (frameSamples, demod) := expectFrame call.demod
      if call.ret = errShort then ⟨call.ret, demod, call.output, call.outputLen, consumed⟩
      else
        let demod := demodLockUpdate demod (call.ret = 0)
        ⟨call.ret,
          dropSamples demod (removeSamples demod.sps demod.streamBuf.length frameSamples),
          call.output, call.outputLen, consumed⟩

/-- A call that waits for more samples. -/
theorem demodulateStream_waits (rx : RxStages R) {demod : Demodulator R} {input : List (Cplx R)}
    (hroom : input.length ≤ uintMax - demod.streamBuf.length)
    (hwaits : streamWaits (streamAppend demod input) = true) (output : List Bool) (capacity : ℕ)
    (returnBbframe : Bool) :
    demodulateStream rx demod input output capacity returnBbframe
      = ⟨errShort, streamAppend demod input, output, 0, input.length⟩ := by
  unfold demodulateStream
  dsimp only
  rw [if_neg (Nat.not_lt.mpr hroom), if_pos hwaits]

/-! ### Runs -/

variable (R) in
/-- A call on the demodulator.  `stream` covers `dvbs2x_demodulate_stream_ex` and
`dvbs2x_demodulate_bbframe_stream_ex`, `burst` and `symbols` the entry points for one block of
samples or symbols. -/
inductive DemodOp where
  | stream (rx : RxStages R) (input : List (Cplx R)) (output : List Bool) (outputCapacity : ℕ)
      (returnBbframe : Bool)
  | burst (rx : RxStages R) (input : List (Cplx R)) (output : List Bool) (outputCapacity : ℕ)
      (returnBbframe : Bool)
  | symbols (rx : RxStages R) (input : List (Cplx R)) (noiseVar : R) (output : List Bool)
      (outputCapacity : ℕ) (returnBbframe : Bool)
  | requestCancel
  | setMaxLdpcIterations (maxIterations : ℕ)

def demodStep (demod : Demodulator R) : DemodOp R → Demodulator R
  | .stream rx input output outputCapacity returnBbframe =>
      (demodulateStream rx demod input output outputCapacity returnBbframe).demod
  | .burst rx input output outputCapacity returnBbframe =>
      (decodeBurst rx demod input output outputCapacity returnBbframe).demod
  | .symbols rx input noiseVar output outputCapacity returnBbframe =>
      (decodeSymbols rx demod input noiseVar output outputCapacity returnBbframe).demod
  | .requestCancel => demodulatorRequestCancel demod
  | .setMaxLdpcIterations maxIterations => (demodulatorSetMaxLdpcIterations demod maxIterations).2

def demodRun (demod : Demodulator R) (ops : List (DemodOp R)) : Demodulator R :=
  ops.foldl demodStep demod

/-- The input that a call consumes: `consumed` samples from the front. -/
def consumedBy (demod : Demodulator R) : DemodOp R → List (Cplx R)
  | .stream rx input output outputCapacity returnBbframe =>
      input.take (demodulateStream rx demod input output outputCapacity returnBbframe).consumed
  | _ => []

/-- All input that a run consumes. -/
def consumedInput : Demodulator R → List (DemodOp R) → List (Cplx R)
  | _, [] => []
  | demod, op :: ops => consumedBy demod op ++ consumedInput (demodStep demod op) ops

/-! ### The exits of a call -/

omit [LinearOrder R] [Field R] in
theorem streamAppend_streamBuf (demod : Demodulator R) (input : List (Cplx R)) :
    (streamAppend demod input).streamBuf = demod.streamBuf ++ input := by
  unfold streamAppend
  by_cases hempty : input.length = 0
  · rw [if_pos hempty, List.length_eq_zero_iff.mp hempty, List.append_nil]
  · rw [if_neg hempty]

omit [Field R] [LinearOrder R] in
/-- Appending changes the buffer and its capacity only. -/
theorem streamAppend_eq (demod : Demodulator R) (input : List (Cplx R)) :
    ∃ streamCap, streamAppend demod input
      = { demod with streamBuf := demod.streamBuf ++ input, streamCap := streamCap } := by
  unfold streamAppend
  by_cases hempty : input.length = 0
  · rw [if_pos hempty, List.length_eq_zero_iff.mp hempty, List.append_nil]
    exact ⟨_, rfl⟩
  · rw [if_neg hempty]
    exact ⟨_, rfl⟩

/-- The symbols of a decode attempt. -/
def streamSymbols (rx : RxStages R) (demod : Demodulator R) : List (Cplx R) :=
  rx.frontEnd demod.rolloff demod.sps (decodeBuf demod)

theorem decodeBurst_eq (rx : RxStages R) (demod : Demodulator R) (input : List (Cplx R))
    (output : List Bool) (outputCapacity : ℕ) (returnBbframe : Bool) :
    decodeBurst rx demod input output outputCapacity returnBbframe
      = decodeSymbols rx demod (rx.frontEnd demod.rolloff demod.sps input) 0 output outputCapacity
          returnBbframe := by
  cases returnBbframe <;> rfl

/-- The exits of `demodulate_stream_ex`: the input does not fit, too few samples, the extended
copy does not fit, an attempt that ends with `SHORT`, and any other attempt. -/
inductive StreamOutcome (rx : RxStages R) (demod : Demodulator R) (input : List (Cplx R))
    (capacity : ℕ) (returnBbframe : Bool) : StreamCall R → Prop
  | overflow {output : List Bool} :
      input.length > uintMax - demod.streamBuf.length →
      StreamOutcome rx demod input capacity returnBbframe ⟨errParam, demod, output, 0, 0⟩
  | waits {output : List Bool} :
      input.length ≤ uintMax - demod.streamBuf.length →
      streamWaits (streamAppend demod input) = true →
      StreamOutcome rx demod input capacity returnBbframe
        ⟨errShort, streamAppend demod input, output, 0, input.length⟩
  | tooLong {output : List Bool} :
      input.length ≤ uintMax - demod.streamBuf.length →
      demod.streamBuf.length + input.length > uintMax - demod.numTaps →
      StreamOutcome rx demod input capacity returnBbframe
        ⟨errParam, streamAppend demod input, output, 0, input.length⟩
  | short {call : RxCall R} :
      input.length ≤ uintMax - demod.streamBuf.length →
      streamWaits (streamAppend demod input) = false →
      demod.streamBuf.length + input.length ≤ uintMax - demod.numTaps →
      DecodeOutcome rx (streamAppend demod input) (streamSymbols rx (streamAppend demod input)) 0
        capacity returnBbframe call →
      call.ret = errShort →
      StreamOutcome rx demod input capacity returnBbframe
        ⟨errShort, (expectFrame call.demod).2, call.output, call.outputLen, input.length⟩
  | removed {call : RxCall R} :
      input.length ≤ uintMax - demod.streamBuf.length →
      streamWaits (streamAppend demod input) = false →
      demod.streamBuf.length + input.length ≤ uintMax - demod.numTaps →
      DecodeOutcome rx (streamAppend demod input) (streamSymbols rx (streamAppend demod input)) 0
        capacity returnBbframe call →
      call.ret ≠ errShort →
      StreamOutcome rx demod input capacity returnBbframe
        ⟨call.ret,
          dropSamples (demodLockUpdate (expectFrame call.demod).2 (call.ret = 0))
            (removeSamples (demodLockUpdate (expectFrame call.demod).2 (call.ret = 0)).sps
              (demodLockUpdate (expectFrame call.demod).2 (call.ret = 0)).streamBuf.length
              (expectFrame call.demod).1),
          call.output, call.outputLen, input.length⟩

theorem demodulateStream_outcome (rx : RxStages R) (demod : Demodulator R)
    (input : List (Cplx R)) (output : List Bool) (capacity : ℕ) (returnBbframe : Bool) :
    StreamOutcome rx demod input capacity returnBbframe
      (demodulateStream rx demod input output capacity returnBbframe) := by
  unfold demodulateStream
  by_cases hover : input.length > uintMax - demod.streamBuf.length
  · rw [if_pos hover]
    exact .overflow hover
  rw [if_neg hover]
  have hroom := Nat.not_lt.mp hover
  extract_lets appended consumed call
  by_cases hwait : streamWaits appended = true
  · rw [if_pos hwait]
    exact .waits hroom hwait
  rw [if_neg hwait]
  have hlen : appended.streamBuf.length = demod.streamBuf.length + input.length ∧
      appended.numTaps = demod.numTaps := by
    obtain ⟨streamCap, happ⟩ := streamAppend_eq demod input
    rw [show appended = _ from happ]
    exact ⟨List.length_append, rfl⟩
  by_cases hlong : appended.streamBuf.length > uintMax - appended.numTaps
  · rw [if_pos hlong]
    rw [hlen.1, hlen.2] at hlong
    exact .tooLong hroom hlong
  rw [if_neg hlong]
  rw [hlen.1, hlen.2] at hlong
  have hattempt : DecodeOutcome rx appended (streamSymbols rx appended) 0 capacity returnBbframe
      call := by
    show DecodeOutcome rx appended (streamSymbols rx appended) 0 capacity returnBbframe
      (decodeBurst rx appended (decodeBuf appended) output capacity returnBbframe)
    rw [decodeBurst_eq]
    exact decodeSymbols_outcome rx appended (streamSymbols rx appended) 0 output capacity
      returnBbframe
  have hwaits : streamWaits appended = false := Bool.eq_false_iff.mpr hwait
  by_cases hret : call.ret = errShort
  · dsimp only
    rw [if_pos hret, hret]
    exact .short hroom hwaits (Nat.not_lt.mp hlong) hattempt hret
  · dsimp only
    rw [if_neg hret]
    exact .removed hroom hwaits (Nat.not_lt.mp hlong) hattempt hret

/-! ### What receive calls keep -/

/-- Buffer and configuration are the same. -/
structure Demodulator.SameBuffer (demod demod' : Demodulator R) : Prop where
  rolloff : demod'.rolloff = demod.rolloff
  sps : demod'.sps = demod.sps
  numTaps : demod'.numTaps = demod.numTaps
  goldIdx : demod'.goldIdx = demod.goldIdx
  streamBuf : demod'.streamBuf = demod.streamBuf
  streamCap : demod'.streamCap = demod.streamCap

omit [Field R] [LinearOrder R] in
theorem Demodulator.SameBuffer.trans {demod demod' demod'' : Demodulator R}
    (h : demod.SameBuffer demod') (h' : demod'.SameBuffer demod'') : demod.SameBuffer demod'' where
  rolloff := h'.rolloff.trans h.rolloff
  sps := h'.sps.trans h.sps
  numTaps := h'.numTaps.trans h.numTaps
  goldIdx := h'.goldIdx.trans h.goldIdx
  streamBuf := h'.streamBuf.trans h.streamBuf
  streamCap := h'.streamCap.trans h.streamCap

theorem DecodeOutcome.sameBuffer {rx : RxStages R} {demod : Demodulator R}
    {input : List (Cplx R)} {noiseVar : R} {capacity : ℕ} {returnBbframe : Bool} {call : RxCall R}
    (h : DecodeOutcome rx demod input noiseVar capacity returnBbframe call) :
    demod.SameBuffer call.demod := by
  cases h <;> exact ⟨rfl, rfl, rfl, rfl, rfl, rfl⟩

omit [Field R] [LinearOrder R] in
theorem expectFrame_sameBuffer (demod : Demodulator R) :
    demod.SameBuffer (expectFrame demod).2 := by
  unfold expectFrame
  split_ifs
  · split <;> exact ⟨rfl, rfl, rfl, rfl, rfl, rfl⟩
  · exact ⟨rfl, rfl, rfl, rfl, rfl, rfl⟩

omit [LinearOrder R] in
theorem demodLockUpdate_sameBuffer (demod : Demodulator R) (success : Bool) :
    demod.SameBuffer (demodLockUpdate demod success) := by
  cases success with
  | true =>
    obtain ⟨state, -, hupdate⟩ := demodLockUpdate_success demod
    rw [hupdate]
    exact ⟨rfl, rfl, rfl, rfl, rfl, rfl⟩
  | false =>
    rcases demodLockUpdate_failure demod with hupdate | hupdate
    · rw [hupdate]
      exact ⟨rfl, rfl, rfl, rfl, rfl, rfl⟩
    · rw [hupdate]
      exact ⟨rfl, rfl, rfl, rfl, rfl, rfl⟩

/-- The context of an attempt when its samples are about to be removed. -/
theorem DecodeOutcome.sameBuffer_update {rx : RxStages R} {demod : Demodulator R}
    {input : List (Cplx R)} {noiseVar : R} {capacity : ℕ} {returnBbframe : Bool} {call : RxCall R}
    (h : DecodeOutcome rx demod input noiseVar capacity returnBbframe call) (success : Bool) :
    demod.SameBuffer (demodLockUpdate (expectFrame call.demod).2 success) :=
  (h.sameBuffer.trans (expectFrame_sameBuffer _)).trans (demodLockUpdate_sameBuffer _ success)

/-! ### The buffer in one call -/

/-- At least one sample and at most all of them. -/
theorem removeSamples_bounds (sps frameSamples : ℕ) {streamLen : ℕ} (hlen : 0 < streamLen) :
    1 ≤ removeSamples sps streamLen frameSamples ∧
      removeSamples sps streamLen frameSamples ≤ streamLen := by
  unfold removeSamples
  extract_lets searched searched'
  by_cases hframe : frameSamples = 0 ∨ frameSamples > streamLen
  · rw [if_pos hframe]
    have hle : searched' ≤ streamLen := by
      show (if searched > streamLen then streamLen else searched) ≤ streamLen
      split_ifs with h
      · exact le_rfl
      · exact Nat.not_lt.mp h
    by_cases hzero : searched' ≠ 0
    · rw [if_pos hzero]
      exact ⟨Nat.one_le_iff_ne_zero.mpr hzero, hle⟩
    · rw [if_neg hzero]
      exact ⟨le_rfl, hlen⟩
  · rw [if_neg hframe]
    obtain ⟨hne, hle⟩ := not_or.mp hframe
    exact ⟨Nat.one_le_iff_ne_zero.mpr hne, Nat.not_lt.mp hle⟩

/-- What a streaming call does to the buffer: `removed` samples go from the front of what was
there and what was consumed. -/
structure StreamEffect (demod : Demodulator R) (input : List (Cplx R)) (call : StreamCall R)
    (removed : ℕ) : Prop where
  consumed : call.consumed = 0 ∨ call.consumed = input.length
  streamBuf : call.demod.streamBuf = (demod.streamBuf ++ input.take call.consumed).drop removed
  removed_le : removed ≤ demod.streamBuf.length + call.consumed
  short : call.ret = errShort → removed = 0
  progress : call.ret ≠ errShort →
    demod.streamBuf.length + input.length < uintMax - demod.numTaps → 1 ≤ removed

omit [Field R] [LinearOrder R] in
/-- A decode attempt is made on a buffer that holds at least a short frame. -/
theorem streamWaits_eq_false {demod : Demodulator R} (h : streamWaits demod = false) :
    vlsnrFrameShort * demod.sps ≤ demod.streamBuf.length ∧
      (demod.expectedFrameLen ≠ 0 →
        demod.expectedFrameLen * demod.sps ≤ demod.streamBuf.length) := by
  unfold streamWaits at h
  obtain ⟨hshort, hexpected⟩ := Bool.or_eq_false_iff.mp h
  refine ⟨Nat.not_lt.mp (of_decide_eq_false hshort), fun hne => ?_⟩
  rcases Bool.and_eq_false_iff.mp hexpected with hzero | hlen
  · exact absurd hne (of_decide_eq_false hzero)
  · exact Nat.not_lt.mp (of_decide_eq_false hlen)

theorem demodulateStream_effect (rx : RxStages R) {demod : Demodulator R} (hsps : 0 < demod.sps)
    (input : List (Cplx R)) (output : List Bool) (capacity : ℕ) (returnBbframe : Bool) :
    ∃ removed, StreamEffect demod input
      (demodulateStream rx demod input output capacity returnBbframe) removed := by
  have hparam : errParam ≠ errShort := by decide
  have hbuf := streamAppend_streamBuf demod input
  have hall : demod.streamBuf ++ input = demod.streamBuf ++ input.take input.length := by
    rw [List.take_length]
  have h := demodulateStream_outcome rx demod input output capacity returnBbframe
  generalize demodulateStream rx demod input output capacity returnBbframe = call at h
  cases h with
  | overflow hover =>
    refine ⟨0, Or.inl rfl, (List.append_nil _).symm, Nat.zero_le _, fun _ => rfl, ?_⟩
    intro _ hroom
    exact absurd hover (by omega)
  | waits hroom hwaits =>
    exact ⟨0, Or.inr rfl, hbuf.trans hall, Nat.zero_le _, fun _ => rfl, fun h => absurd rfl h⟩
  | tooLong hroom hlong =>
    refine ⟨0, Or.inr rfl, hbuf.trans hall, Nat.zero_le _, fun _ => rfl, ?_⟩
    intro _ hfew
    exact absurd hlong (by omega)
  | short hroom hwaits hfew hattempt hret =>
    refine ⟨0, Or.inr rfl, ?_, Nat.zero_le _, fun _ => rfl, fun h => absurd rfl h⟩
    have hkept := hattempt.sameBuffer.trans (expectFrame_sameBuffer _)
    exact hkept.streamBuf.trans (hbuf.trans hall)
  | @removed call hroom hwaits hfew hattempt hret =>
    have hkept := hattempt.sameBuffer_update (decide (call.ret = 0))
    have hlen : (demodLockUpdate (expectFrame call.demod).2 (call.ret = 0)).streamBuf.length
        = demod.streamBuf.length + input.length := by
      rw [hkept.streamBuf, hbuf, List.length_append]
    have hpos : 0 < demod.streamBuf.length + input.length := by
      obtain ⟨hgate, -⟩ := streamWaits_eq_false hwaits
      obtain ⟨streamCap, happ⟩ := streamAppend_eq demod input
      rw [hbuf, List.length_append, happ] at hgate
      have hframe : 0 < vlsnrFrameShort * demod.sps := Nat.mul_pos (by decide) hsps
      exact hframe.trans_le hgate
    have hbounds := removeSamples_bounds
      (demodLockUpdate (expectFrame call.demod).2 (call.ret = 0)).sps (expectFrame call.demod).1 hpos
    rw [← hlen] at hbounds
    refine ⟨_, Or.inr rfl, ?_, hbounds.2.trans_eq hlen, fun h => absurd h hret,
      fun _ _ => hbounds.1⟩
    show (demodLockUpdate (expectFrame call.demod).2 (call.ret = 0)).streamBuf.drop _ = _
    rw [hkept.streamBuf, hbuf, ← hall]

/-- A BBFRAME call that identifies a frame it has symbols and room for returns 0. -/
theorem DecodeOutcome.ret_of_room {rx : RxStages R} {demod : Demodulator R}
    {input : List (Cplx R)} {noiseVar : R} {capacity : ℕ} {mc : Modcod} {bits : List Bool}
    {call : RxCall R} (h : DecodeOutcome rx demod input noiseVar capacity true call)
    (hnoise : 0 ≤ noiseVar) (hcontent : frameContent rx demod input noiseVar = some (mc, bits))
    (hroom : mc.kBch ≤ capacity) : call.ret = ok := by
  have hneed : outputNeed rx demod input noiseVar true = some mc.kBch := by
    unfold outputNeed
    rw [hcontent]
    rfl
  cases h with
  | invalid h => exact absurd h (not_lt.mpr hnoise)
  | unheard hdet hnone => exact absurd (hneed.symm.trans hnone) (by simp)
  | incomplete hdet hnone => exact absurd (hneed.symm.trans hnone) (by simp)
  | failed hdet hdec hnone => exact absurd (hneed.symm.trans hnone) (by simp)
  | full hdet hdec hsome hcap =>
    obtain rfl := Option.some.inj (hneed.symm.trans hsome)
    exact absurd hroom (Nat.not_le.mpr hcap)
  | delivered => rfl

/-- The same for a streaming call whose attempt goes ahead. -/
theorem demodulateStream_ret_ok {rx : RxStages R} {demod : Demodulator R} {input : List (Cplx R)}
    {capacity : ℕ} {mc : Modcod} {bits : List Bool} (output : List Bool)
    (hfew : demod.streamBuf.length + input.length ≤ uintMax - demod.numTaps)
    (hwaits : streamWaits (streamAppend demod input) = false)
    (hcontent : frameContent rx (streamAppend demod input)
      (streamSymbols rx (streamAppend demod input)) 0 = some (mc, bits))
    (hroom : mc.kBch ≤ capacity) :
    (demodulateStream rx demod input output capacity true).ret = ok := by
  have h := demodulateStream_outcome rx demod input output capacity true
  generalize demodulateStream rx demod input output capacity true = call at h
  cases h with
  | overflow hover => exact absurd hover (by omega)
  | waits hfits hwait => exact absurd (hwaits.symm.trans hwait) Bool.false_ne_true
  | tooLong hfits hlong => exact absurd hlong (Nat.not_lt.mpr hfew)
  | short hfits hwait hlen hattempt hret =>
    exact absurd (hret.symm.trans (hattempt.ret_of_room le_rfl hcontent hroom)) (by decide)
  | removed hfits hwait hlen hattempt hret => exact hattempt.ret_of_room le_rfl hcontent hroom

/-! ### The buffer over a run -/

/-- Configuration and capacity of a context, and its buffer against all that was consumed. -/
structure StreamInv (demod : Demodulator R) (history : List (Cplx R)) : Prop where
  sps_pos : 0 < demod.sps
  suffix : demod.streamBuf <:+ history
  fits : demod.streamBuf.length ≤ demod.streamCap
  cap_le : demod.streamCap ≤ uintMax

omit [Field R] [LinearOrder R] in
/-- Appending keeps the capacity large enough. -/
theorem streamAppend_cap {demod : Demodulator R} {input : List (Cplx R)}
    (hfits : demod.streamBuf.length ≤ demod.streamCap) (hcap : demod.streamCap ≤ uintMax)
    (hroom : input.length ≤ uintMax - demod.streamBuf.length) :
    demod.streamBuf.length + input.length ≤ (streamAppend demod input).streamCap ∧
      (streamAppend demod input).streamCap ≤ uintMax := by
  unfold streamAppend
  by_cases hempty : input.length = 0
  · rw [if_pos hempty, hempty]
    exact ⟨hfits, hcap⟩
  · rw [if_neg hempty]
    dsimp only
    by_cases hgrow : demod.streamBuf.length + input.length > demod.streamCap
    · rw [if_pos hgrow]
      exact growCap_spec (by omega) hcap
    · rw [if_neg hgrow]
      exact ⟨Nat.not_lt.mp hgrow, hcap⟩

theorem demodulateStream_cap (rx : RxStages R) {demod : Demodulator R}
    (hfits : demod.streamBuf.length ≤ demod.streamCap) (hcap : demod.streamCap ≤ uintMax)
    (input : List (Cplx R)) (output : List Bool) (capacity : ℕ) (returnBbframe : Bool) :
    let call := demodulateStream rx demod input output capacity returnBbframe
    (call.demod.streamBuf.length ≤ call.demod.streamCap ∧ call.demod.streamCap ≤ uintMax) ∧
      call.demod.sps = demod.sps ∧ call.demod.numTaps = demod.numTaps := by
  have hbuf := congrArg List.length (streamAppend_streamBuf demod input)
  rw [List.length_append] at hbuf
  have happended : input.length ≤ uintMax - demod.streamBuf.length →
      (streamAppend demod input).streamBuf.length ≤ (streamAppend demod input).streamCap ∧
        (streamAppend demod input).streamCap ≤ uintMax := by
    intro hroom
    rw [hbuf]
    exact streamAppend_cap hfits hcap hroom
  have hconfig : (streamAppend demod input).sps = demod.sps ∧
      (streamAppend demod input).numTaps = demod.numTaps := by
    obtain ⟨streamCap, happ⟩ := streamAppend_eq demod input
    rw [happ]
    exact ⟨rfl, rfl⟩
  have h := demodulateStream_outcome rx demod input output capacity returnBbframe
  generalize demodulateStream rx demod input output capacity returnBbframe = call at h
  intro call
  cases h with
  | overflow hover => exact ⟨⟨hfits, hcap⟩, rfl, rfl⟩
  | waits hroom hwaits => exact ⟨happended hroom, hconfig⟩
  | tooLong hroom hlong => exact ⟨happended hroom, hconfig⟩
  | short hroom hwaits hfew hattempt hret =>
    have hkept := hattempt.sameBuffer.trans (expectFrame_sameBuffer _)
    refine ⟨⟨?_, hkept.streamCap.trans_le (happended hroom).2⟩, hkept.sps.trans hconfig.1,
      hkept.numTaps.trans hconfig.2⟩
    show (expectFrame _).2.streamBuf.length ≤ (expectFrame _).2.streamCap
    rw [hkept.streamBuf, hkept.streamCap]
    exact (happended hroom).1
  | @removed call hroom hwaits hfew hattempt hret =>
    have hkept := hattempt.sameBuffer_update (decide (call.ret = 0))
    refine ⟨⟨?_, hkept.streamCap.trans_le (happended hroom).2⟩, hkept.sps.trans hconfig.1,
      hkept.numTaps.trans hconfig.2⟩
    show ((demodLockUpdate _ _).streamBuf.drop _).length ≤ (demodLockUpdate _ _).streamCap
    rw [hkept.streamBuf, hkept.streamCap, List.length_drop]
    exact (Nat.sub_le _ _).trans (happended hroom).1

/-- One call. -/
theorem StreamInv.step {demod : Demodulator R} {history : List (Cplx R)}
    (h : StreamInv demod history) (op : DemodOp R) :
    StreamInv (demodStep demod op) (history ++ consumedBy demod op) := by
  have hother : ∀ {demod' : Demodulator R}, demod.SameBuffer demod' →
      StreamInv demod' (history ++ []) := by
    intro demod' hkept
    rw [List.append_nil]
    exact ⟨hkept.sps ▸ h.sps_pos, hkept.streamBuf ▸ h.suffix,
      by rw [hkept.streamBuf, hkept.streamCap]; exact h.fits, hkept.streamCap ▸ h.cap_le⟩
  cases op with
  | stream rx input output capacity returnBbframe =>
    obtain ⟨removed, heffect⟩ :=
      demodulateStream_effect rx h.sps_pos input output capacity returnBbframe
    obtain ⟨⟨hfits, hcap⟩, hsps, -⟩ :=
      demodulateStream_cap rx h.fits h.cap_le input output capacity returnBbframe
    refine ⟨hsps ▸ h.sps_pos, ?_, hfits, hcap⟩
    obtain ⟨before, hbefore⟩ := h.suffix
    refine (heffect.streamBuf ▸ List.drop_suffix _ _).trans ⟨before, ?_⟩
    rw [← List.append_assoc, hbefore]
    rfl
  | burst rx input output capacity returnBbframe =>
    refine hother ?_
    show demod.SameBuffer (decodeBurst rx demod input output capacity returnBbframe).demod
    rw [decodeBurst_eq]
    exact (decodeSymbols_outcome rx demod _ 0 output capacity returnBbframe).sameBuffer
  | symbols rx input noiseVar output capacity returnBbframe =>
    exact hother
      (decodeSymbols_outcome rx demod input noiseVar output capacity returnBbframe).sameBuffer
  | requestCancel => exact hother ⟨rfl, rfl, rfl, rfl, rfl, rfl⟩
  | setMaxLdpcIterations maxIterations =>
    refine hother ?_
    show demod.SameBuffer (demodulatorSetMaxLdpcIterations demod maxIterations).2
    unfold demodulatorSetMaxLdpcIterations
    split_ifs <;> exact ⟨rfl, rfl, rfl, rfl, rfl, rfl⟩

/-- **A whole run**, by induction on its calls. -/
theorem StreamInv.run {demod : Demodulator R} {history : List (Cplx R)}
    (h : StreamInv demod history) (ops : List (DemodOp R)) :
    StreamInv (demodRun demod ops) (history ++ consumedInput demod ops) := by
  induction ops generalizing demod history with
  | nil =>
    rw [consumedInput, List.append_nil]
    exact h
  | cons op ops ih =>
    rw [consumedInput, ← List.append_assoc]
    exact ih (h.step op)

theorem demodulatorInit_inv {rolloff : R} {sps plScramblingIdx : ℕ} {demod : Demodulator R}
    (h : demodulatorInit rolloff sps plScramblingIdx = .ok demod) : StreamInv demod [] := by
  obtain ⟨rfl, hsps, -⟩ := demodulatorInit_ok h
  exact ⟨(by decide : 0 < 2).trans_le hsps, List.suffix_rfl, le_rfl, Nat.zero_le _⟩

/-! ### Draining -/

variable (R) in
/-- The arguments of a call with `in_len = 0`. -/
structure DrainCall where
  rx : RxStages R
  output : List Bool
  outputCapacity : ℕ
  returnBbframe : Bool

def drainCall (demod : Demodulator R) (args : DrainCall R) : StreamCall R :=
  demodulateStream args.rx demod [] args.output args.outputCapacity args.returnBbframe

/-- The context before call `n` of the drain loop, cancellation requests included in `args`. -/
def drain (demod : Demodulator R) (args : ℕ → DrainCall R) : ℕ → Demodulator R
  | 0 => demod
  | n + 1 => (drainCall (drain demod args n) (args n)).demod

/-- Every call that is not the last one shortens the buffer. -/
theorem drain_progress {demod : Demodulator R} {history : List (Cplx R)}
    (h : StreamInv demod history)
    (hfew : demod.streamBuf.length < uintMax - demod.numTaps) (args : ℕ → DrainCall R) (n : ℕ)
    (hgoes : ∀ k < n, (drainCall (drain demod args k) (args k)).ret ≠ errShort) :
    StreamInv (drain demod args n) history ∧
      (drain demod args n).numTaps = demod.numTaps ∧
        (drain demod args n).streamBuf.length + n ≤ demod.streamBuf.length := by
  induction n with
  | zero => exact ⟨h, rfl, le_rfl⟩
  | succ n ih =>
    obtain ⟨hinv, htaps, hlen⟩ := ih fun k hk => hgoes k (Nat.lt_succ_of_lt hk)
    have hstep := hinv.step (.stream (args n).rx [] (args n).output (args n).outputCapacity
      (args n).returnBbframe)
    obtain ⟨removed, heffect⟩ := demodulateStream_effect (args n).rx hinv.sps_pos []
      (args n).output (args n).outputCapacity (args n).returnBbframe
    obtain ⟨-, -, htaps'⟩ := demodulateStream_cap (args n).rx hinv.fits hinv.cap_le []
      (args n).output (args n).outputCapacity (args n).returnBbframe
    have hempty : consumedBy (drain demod args n) (.stream (args n).rx [] (args n).output
        (args n).outputCapacity (args n).returnBbframe) = [] := List.take_nil
    rw [hempty, List.append_nil] at hstep
    refine ⟨hstep, htaps'.trans htaps, ?_⟩
    have hremoved : 1 ≤ removed := by
      refine heffect.progress (hgoes n (Nat.lt_succ_self n)) ?_
      rw [List.length_nil, htaps]
      omega
    have hbuf : (drain demod args (n + 1)).streamBuf.length
        = (drain demod args n).streamBuf.length - removed := by
      show (drainCall _ _).demod.streamBuf.length = _
      rw [drainCall, heffect.streamBuf, List.take_nil, List.append_nil, List.length_drop]
    have hle := heffect.removed_le
    have hnone : (drainCall (drain demod args n) (args n)).consumed = 0 := by
      rcases heffect.consumed with h0 | h0 <;> exact h0
    rw [show (demodulateStream _ _ _ _ _ _).consumed = 0 from hnone] at hle
    omega

/-- The drain loop ends. -/
theorem drain_terminates {demod : Demodulator R} {history : List (Cplx R)}
    (h : StreamInv demod history)
    (hfew : demod.streamBuf.length < uintMax - demod.numTaps) (args : ℕ → DrainCall R) :
    ∃ n, (drainCall (drain demod args n) (args n)).ret = errShort := by
  by_contra hnever
  have hgoes : ∀ k, (drainCall (drain demod args k) (args k)).ret ≠ errShort := by
    intro k hk
    exact hnever ⟨k, hk⟩
  obtain ⟨-, -, hlen⟩ := drain_progress h hfew args (demod.streamBuf.length + 1) fun k _ => hgoes k
  omega

/-- **Stream ownership and progress.**  After any run of calls on an initialised demodulator,
the buffer is a suffix of the consumed input and within its capacity; what the next streaming call
does to it; and the drain loop ends. -/
theorem demodStream_ownership {rolloff : R} {sps plScramblingIdx : ℕ} {demod : Demodulator R}
    (hinit : demodulatorInit rolloff sps plScramblingIdx = .ok demod) (ops : List (DemodOp R)) :
    (demodRun demod ops).streamBuf <:+ consumedInput demod ops ∧
    (demodRun demod ops).streamBuf.length ≤ (demodRun demod ops).streamCap ∧
    (∀ (rx : RxStages R) (input : List (Cplx R)) (output : List Bool) (capacity : ℕ)
        (returnBbframe : Bool),
      let call := demodulateStream rx (demodRun demod ops) input output capacity returnBbframe
      (call.consumed = 0 ∨ call.consumed = input.length) ∧
      ∃ removed ≤ (demodRun demod ops).streamBuf.length + call.consumed,
        call.demod.streamBuf
          = ((demodRun demod ops).streamBuf ++ input.take call.consumed).drop removed ∧
        (call.ret = errShort → removed = 0) ∧
        (call.ret ≠ errShort →
          (demodRun demod ops).streamBuf.length + input.length
            < uintMax - (demodRun demod ops).numTaps →
          1 ≤ removed)) ∧
    ((demodRun demod ops).streamBuf.length < uintMax - (demodRun demod ops).numTaps →
      ∀ args : ℕ → DrainCall R,
        ∃ n, (drainCall (drain (demodRun demod ops) args n) (args n)).ret = errShort) := by
  have hinv := (demodulatorInit_inv hinit).run ops
  rw [List.nil_append] at hinv
  refine ⟨hinv.suffix, hinv.fits, ?_, drain_terminates hinv⟩
  intro rx input output capacity returnBbframe call
  obtain ⟨removed, heffect⟩ :=
    demodulateStream_effect rx hinv.sps_pos input output capacity returnBbframe
  exact ⟨heffect.consumed, removed, heffect.removed_le, heffect.streamBuf, heffect.short,
    heffect.progress⟩

end

/-! ### Scripted stages -/

/-- A receiver that takes every `sps`-th sample for a symbol, whose correlator answers `sync` and
whose BCH decoder returns `bchRet`. -/
def scriptedStages (sync : List (Cplx ℚ) → ℕ → ℕ → HeaderSync ℚ) (bchRet : ℤ) : RxStages ℚ where
  const := ⟨1, 1, one_pos, one_pos⟩
  frontEnd _ sps input := (List.range (input.length / sps)).map fun n => input.getD (n * sps) 0
  derotate _ work := work
  coarseBlindCarrier work := work
  headerSync := sync
  normalizeInputLevel _ _ work := work
  estimateNoiseVar _ _ _ := 0
  esn0 _ := 0
  afcRaw _ _ _ := 0
  coarseFreqRecover _ _ _ work := work
  residualCarrierTrack _ _ work := work
  ldpc dec _ _ :=
    { ret := 0, output := List.replicate dec.code.k false, iterUsed := 1, vnLlr := [] }
  bch _ codeword := (bchRet, codeword)
  cancelAt := none

theorem scripted_symbols_length (sync : List (Cplx ℚ) → ℕ → ℕ → HeaderSync ℚ) (bchRet : ℤ)
    (rolloff : ℚ) (sps : ℕ) (input : List (Cplx ℚ)) :
    ((scriptedStages sync bchRet).frontEnd rolloff sps input).length = input.length / sps := by
  show ((List.range (input.length / sps)).map _).length = _
  rw [List.length_map, List.length_range]

theorem streamSymbols_scripted_length (sync : List (Cplx ℚ) → ℕ → ℕ → HeaderSync ℚ) (bchRet : ℤ)
    (demod : Demodulator ℚ) :
    (streamSymbols (scriptedStages sync bchRet) demod).length
      = (demod.streamBuf.length + demod.numTaps) / demod.sps := by
  rw [streamSymbols, scripted_symbols_length, decodeBuf, List.length_append, List.length_replicate]

/-- The scripted error correction decodes every frame. -/
theorem scripted_content {sync : List (Cplx ℚ) → ℕ → ℕ → HeaderSync ℚ} {demod : Demodulator ℚ}
    {input : List (Cplx ℚ)} {mc : Modcod} {s : HeaderSync ℚ} (noiseVar : ℚ)
    (hdet : detected (scriptedStages sync 0) demod input = some (mc, s))
    (hfits : frameFits mc s input.length) :
    ∃ bits, frameContent (scriptedStages sync 0) demod input noiseVar = some (mc, bits) := by
  obtain ⟨dec, hdec⟩ := frameDecoder_isSome demod.ldpcDec (detected_mem hdet)
  have hbits : ∃ bchCw, frameBits (scriptedStages sync 0) demod input noiseVar mc s = .ok bchCw := by
    unfold frameBits frameFec
    rw [hdec]
    refine ⟨_, (if_neg ?_).trans (if_neg ?_)⟩
    · exact fun h => absurd h.1 (lt_irrefl 0)
    · exact lt_irrefl 0
  obtain ⟨bchCw, hbits⟩ := hbits
  exact ⟨_, frameContent_of_ok hdet hfits hbits⟩

/-- What an uncancelled call of a demodulator in `SEARCH` detects. -/
theorem detected_scripted {sync : List (Cplx ℚ) → ℕ → ℕ → HeaderSync ℚ} {bchRet : ℤ}
    {demod : Demodulator ℚ} {input : List (Cplx ℚ)} {s : HeaderSync ℚ} {mc : Modcod}
    (hcancel : demod.cancelRequested = false) (hlen : plheaderLen + vlsnrWhLen ≤ input.length)
    (hsync : headerSearch (scriptedStages sync bchRet) demod
      (preCorrect (scriptedStages sync bchRet) demod input) input.length = s)
    (hconf : 9 / 20 ≤ s.conf) (hrow : vlsnrGetModcod s.modcodIdx = some mc) :
    detected (scriptedStages sync bchRet) demod input = some (mc, s) := by
  unfold detected
  rw [if_neg (by rw [hcancel]; exact not_or.mpr ⟨Bool.false_ne_true, Nat.not_lt.mpr hlen⟩), hsync]
  dsimp only
  rw [if_neg (not_lt.mpr hconf), hrow]
  rfl

/-- The correlator finds MODCOD `idx` at `offset`. -/
def fixedSync (offset idx : ℕ) : List (Cplx ℚ) → ℕ → ℕ → HeaderSync ℚ :=
  fun _ _ _ => ⟨1, offset, idx⟩

/-- A frame fits when all its symbols are there. -/
theorem frameFits_fixed {mc : Modcod} (hmc : mc ∈ vlsnrModcodTable) {offset idx inLen : ℕ}
    (hoffset : offset ≤ acqWindow) (hsymbols : offset + frameLenOf mc ≤ inLen + 92) :
    frameFits mc (⟨1, offset, idx⟩ : HeaderSync ℚ) inLen := by
  obtain ⟨hfield, hcases⟩ := frameLenOf_cases hmc
  have hwin : acqWindow = 4096 := rfl
  have hstart : dataStart offset = offset + 898 := by
    show (offset + 896 + 2) % 2 ^ 32 = offset + 898
    rw [Nat.mod_eq_of_lt (by omega)]
  show (dataStart offset + (buildLayout mc).fieldLen) % 2 ^ 32 ≤ inLen
  rw [hstart, Nat.mod_eq_of_lt (by omega)]
  omega

/-- A first chunk of `n` samples, enough for the symbols of its frame. -/
theorem firstFrame_delivered (n offset idx : ℕ) {mc : Modcod}
    (hrow : vlsnrGetModcod idx = some mc) (hgate : vlsnrFrameShort * 2 ≤ n)
    (hfew : n ≤ uintMax - 65) (hoffset : offset ≤ acqWindow)
    (hsymbols : offset + frameLenOf mc ≤ (n + 65) / 2 + 92) :
    let rx := scriptedStages (fixedSync offset idx) 0
    let demod := freshDemodulator (1 / 5 : ℚ) 2 0
    detected rx (streamAppend demod (List.replicate n 0))
        (streamSymbols rx (streamAppend demod (List.replicate n 0)))
      = some (mc, ⟨1, offset, idx⟩) ∧
    (demodulateStream rx demod (List.replicate n 0) [] ldpcNormal true).ret = ok := by
  intro rx demod
  have hmc := vlsnrGetModcod_mem hrow
  obtain ⟨streamCap, happ⟩ := streamAppend_eq demod (List.replicate n (0 : Cplx ℚ))
  have hn : (([] : List (Cplx ℚ)) ++ List.replicate n 0).length = n := by
    rw [List.nil_append, List.length_replicate]
  have hlen : (streamSymbols rx (streamAppend demod (List.replicate n 0))).length
      = (n + 65) / 2 := by
    rw [streamSymbols_scripted_length, happ]
    exact congrArg (fun k => (k + 65) / 2) hn
  have hheader : plheaderLen + vlsnrWhLen ≤ (n + 65) / 2 := by
    have hshort : vlsnrFrameShort = 16686 := rfl
    show 986 ≤ (n + 65) / 2
    omega
  have hdet : detected rx (streamAppend demod (List.replicate n 0))
      (streamSymbols rx (streamAppend demod (List.replicate n 0)))
        = some (mc, ⟨1, offset, idx⟩) := by
    have hwin : acqWindow = 4096 := rfl
    have hsync : headerSearch rx (streamAppend demod (List.replicate n 0))
        (preCorrect rx (streamAppend demod (List.replicate n 0))
          (streamSymbols rx (streamAppend demod (List.replicate n 0))))
        (streamSymbols rx (streamAppend demod (List.replicate n 0))).length
          = ⟨1, offset % 2 ^ 32, idx⟩ := by
      rw [happ]
      rfl
    rw [Nat.mod_eq_of_lt (by omega)] at hsync
    exact detected_scripted (by rw [happ]; rfl) (hheader.trans_eq hlen.symm) hsync (by norm_num)
      hrow
  obtain ⟨bits, hcontent⟩ := scripted_content 0 hdet
    (frameFits_fixed hmc hoffset (hlen.symm ▸ hsymbols))
  refine ⟨hdet, demodulateStream_ret_ok [] ?_ ?_ hcontent (modcod_geometry mc hmc).2.1⟩
  · rw [List.length_replicate]
    exact (Nat.zero_add n).trans_le hfew
  · unfold streamWaits
    rw [happ]
    refine Bool.or_eq_false_iff.mpr ⟨decide_eq_false ?_, rfl⟩
    exact Nat.not_lt.mpr (hgate.trans_eq hn.symm)

/-- A first chunk with a frame: it is received, samples are removed, and the drain loop behind it
ends. -/
theorem demodStream_ownership_frame :
    let rx := scriptedStages (fixedSync (plheaderLen + 2) 9) 0
    let demod := freshDemodulator (1 / 5 : ℚ) 2 0
    let chunk : List (Cplx ℚ) := List.replicate 42000 0
    let ops : List (DemodOp ℚ) := [.stream rx chunk [] ldpcNormal true]
    (demodulateStream rx demod chunk [] ldpcNormal true).ret = ok ∧
      (demodRun demod ops).streamBuf <:+ consumedInput demod ops ∧
      (demodRun demod ops).streamBuf.length < chunk.length ∧
      ∀ args : ℕ → DrainCall ℚ,
        ∃ n, (drainCall (drain (demodRun demod ops) args n) (args n)).ret = errShort := by
  intro rx demod chunk ops
  obtain ⟨mc, hrow, hset⟩ : ∃ mc, vlsnrGetModcod 9 = some mc ∧ mc.set = .set2 := ⟨_, rfl, rfl⟩
  have hsymbols : plheaderLen + 2 + frameLenOf mc ≤ (42000 + 65) / 2 + 92 := by
    rw [frameLenOf_eq (vlsnrGetModcod_mem hrow), hset]
    decide
  have hret : (demodulateStream rx demod chunk [] ldpcNormal true).ret = ok :=
    (firstFrame_delivered 42000 (plheaderLen + 2) 9 hrow (by decide) (by decide) (by decide)
      hsymbols).2
  have hlen : chunk.length = 42000 := List.length_replicate
  obtain ⟨-, -, hcall, -⟩ := demodStream_ownership demodulatorInit_rat []
  obtain ⟨hsuffix, -, -, hdrain⟩ := demodStream_ownership demodulatorInit_rat ops
  rw [demodRun, List.foldl_nil] at hcall
  obtain ⟨hconsumed, removed, -, hbuf, -, hprogress⟩ := hcall rx chunk [] ldpcNormal true
  have hrun : demodRun demod ops = (demodulateStream rx demod chunk [] ldpcNormal true).demod := by
    rw [demodRun, List.foldl_cons, List.foldl_nil, demodStep]
  have htaps : (demodRun demod ops).numTaps = 65 := by
    rw [hrun]
    have hfits : demod.streamBuf.length ≤ demod.streamCap := le_rfl
    exact (demodulateStream_cap rx hfits (Nat.zero_le _) chunk [] ldpcNormal true).2.2
  -- the call removes samples, since it does not return `SHORT`
  have hnil : demod.streamBuf = [] := rfl
  have hremoved : 1 ≤ removed := by
    refine hprogress (by rw [hret]; decide) ?_
    rw [hnil, hlen]
    decide
  have hless : (demodRun demod ops).streamBuf.length < chunk.length := by
    rw [hrun, hbuf, hnil, List.nil_append, List.length_drop, List.length_take, hlen]
    omega
  refine ⟨hret, hsuffix, hless, hdrain ?_⟩
  rw [htaps]
  exact hless.trans (by rw [hlen]; decide)

end OpenVlsnr
