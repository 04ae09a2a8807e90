import OpenVlsnr.Modulator

/-!
# The transmit stream (`pluto.c`, `send_frame` of `openvlsnr-pluto-tx.c`)

`pluto_tx_write` fills the buffer of the radio with 16-bit samples and pushes it whenever it is
full; `pluto_tx_flush` pushes what is left.  What a push returns, what the buffer holds after it,
and the device's own sample format are the environment (`IioEnv`); `pushed` records what the radio
has got.  `send_frame` shapes each frame with the filter as the frame before has left it.

* `TxHolds` - the samples written so far are those pushed and those pending;
* `plutoSendFrames_sends` - what the radio gets for any list of frames is one waveform, that of all
  their symbols in a row.
-/

namespace OpenVlsnr

/-! ### The buffer -/

/-- A sample of the radio: `int16_t` values for I and Q. -/
abbrev IqSample := ℤ × ℤ

abbrev int16Max : ℤ := 32767

abbrev int16Min : ℤ := -32768

/-- `struct pluto_stream`, with the number of pushes tried and all samples pushed. -/
structure PlutoStream where
  capacity : ℕ
  pending : ℕ
  buf : List IqSample
  pushes : ℕ
  pushed : List IqSample

/-- Whether push `k` succeeds, what the buffer holds after it, and what
`iio_channel_convert_inverse` makes of the two values of a sample. -/
structure IioEnv where
  pushOk : ℕ → Bool
  memory : ℕ → List IqSample
  convertInverse : IqSample → IqSample

/-- `iio_buffer_push_partial`. -/
def iioBufferPush (env : IioEnv) (s : PlutoStream) (count : ℕ) : Bool × PlutoStream :=
  if env.pushOk s.pushes then
    (true, { s with
      buf := env.memory s.pushes
      pushes := s.pushes + 1
      pushed := s.pushed ++ s.buf.take count })
  else (false, { s with buf := env.memory s.pushes, pushes := s.pushes + 1 })

section
variable {R : Type*} [Field R] [LinearOrder R] [FloorRing R]

/-- `scale_sample`; the conversion to `int16_t` drops the fraction. -/
def scaleSample (sample scale : R) : ℤ :=
  let value := sample * scale * (int16Max : R)
  let value := if value > (int16Max : R) then (int16Max : R)
    else if value < (int16Min : R) then (int16Min : R) else value
  if value < 0 then ⌈value⌉ else ⌊value⌋

def scaleIq (scale : R) (sample : Cplx R) : IqSample :=
  (scaleSample sample.i scale, scaleSample sample.q scale)

/-- What the loop stores for a sample. -/
def deviceIq (env : IioEnv) (scale : R) (sample : Cplx R) : IqSample :=
  env.convertInverse (scaleIq scale sample)

/-- The loop of `pluto_tx_write` over the samples left, `fuel` passes of it. -/
def plutoTxWriteLoop (env : IioEnv) (scale : R) :
    ℕ → List (Cplx R) → PlutoStream → Option (ℤ × PlutoStream)
  | 0, _, _ => none
  | fuel + 1, samples, s =>
    if samples.length = 0 then some (0, s)
    else
      let count := samples.length
      let count := if count > s.capacity - s.pending then s.capacity - s.pending else count
      let s := { s with
        buf := memcpyAt s.buf s.pending ((samples.take count).map (deviceIq env scale))
        pending := s.pending + count }
      if s.pending = s.capacity then
        let push := iioBufferPush env s s.capacity
        if push.1 then
          plutoTxWriteLoop env scale fuel (samples.drop count) { push.2 with pending := 0 }
        else some (-1, push.2)
      else plutoTxWriteLoop env scale fuel (samples.drop count) s

/-- `pluto_tx_write`.  Every pass takes a sample, but for one behind a push that has failed. -/
def plutoTxWrite (env : IioEnv) (s : PlutoStream) (samples : List (Cplx R)) (scale : R) :
    Option (ℤ × PlutoStream) :=
  if scale ≤ 0 ∨ scale > 1 then some (-1, s)
  else plutoTxWriteLoop env scale (samples.length + 2) samples s

end

/-- `pluto_tx_flush`. -/
def plutoTxFlush (env : IioEnv) (s : PlutoStream) : ℤ × PlutoStream :=
  if s.pending = 0 then (0, s)
  else
    let push := iioBufferPush env s s.pending
    if push.1 then (0, { push.2 with pending := 0 }) else (-1, push.2)

/-! ### Frames -/

section
variable {R : Type*} [Field R] [LinearOrder R] [FloorRing R] (const : Sqrt2 R)

/-- `send_frame`: the filter goes on from where the last frame has left it. -/
def plutoSendFrame (env : IioEnv) (scale : R) (mod : Modulator R) (s : PlutoStream)
    (bbframe : List Bool) (symbols : List (Cplx R)) : Option (ℤ × Modulator R × PlutoStream) :=
  let call := modulateBbframeSymbols const mod bbframe symbols vlsnrFrameLong
  if call.ret < 0 then some (-1, mod, s)
  else
    let up := rrcUpsample mod.txFilter (call.symbols.take call.symLen)
    match plutoTxWrite env s up.2 scale with
    | none => none
    | some (ret, s) => some (ret, { mod with txFilter := up.1 }, s)

/-- Frame after frame, up to the first that fails. -/
def plutoSendFrames (env : IioEnv) (scale : R) (symbols : List (Cplx R)) :
    Modulator R → PlutoStream → List (List Bool) → Option (ℤ × Modulator R × PlutoStream)
  | mod, s, [] => some (0, mod, s)
  | mod, s, bbframe :: rest =>
    match plutoSendFrame const env scale mod s bbframe symbols with
    | none => none
    | some (ret, mod, s) =>
      if ret < 0 then some (ret, mod, s) else plutoSendFrames env scale symbols mod s rest

end

/-! ### One sample -/

section
variable {R : Type*} [Field R] [LinearOrder R] [IsStrictOrderedRing R] [FloorRing R]

/-- What is sent fits in 16 bits. -/
theorem scaleSample_fits (sample scale : R) :
    int16Min ≤ scaleSample sample scale ∧ scaleSample sample scale ≤ int16Max := by
  have hclamp : ∀ value : R, (int16Min : R) ≤ value → value ≤ (int16Max : R) →
      int16Min ≤ (if value < 0 then ⌈value⌉ else ⌊value⌋) ∧
        (if value < 0 then ⌈value⌉ else ⌊value⌋) ≤ int16Max := by
    intro value hlow hhigh
    split
    · exact ⟨by exact_mod_cast hlow.trans (Int.le_ceil value), Int.ceil_le.mpr hhigh⟩
    · exact ⟨Int.le_floor.mpr hlow, by exact_mod_cast (Int.floor_le value).trans hhigh⟩
  have horder : (int16Min : R) ≤ (int16Max : R) := by exact_mod_cast (show int16Min ≤ int16Max by decide)
  rw [scaleSample]
  split
  · exact hclamp _ horder le_rfl
  · rename_i hhigh
    split
    · exact hclamp _ le_rfl horder
    · rename_i hlow
      exact hclamp _ (not_lt.mp hlow) (not_lt.mp hhigh)

end

/-! ### Writing -/

/-- The samples `data` have been written. -/
structure TxHolds (s : PlutoStream) (data : List IqSample) : Prop where
  room : s.pending < s.capacity
  buf : s.buf.length = s.capacity
  data : s.pushed ++ s.buf.take s.pending = data

section
variable {R : Type*} [Field R] [LinearOrder R] [FloorRing R] {env : IioEnv} {scale : R}

/-- **A write.**  All is taken, or a push fails and the radio has got a beginning of it. -/
theorem plutoTxWriteLoop_holds {capacity : ℕ} (hmemory : ∀ k, (env.memory k).length = capacity)
    {fuel : ℕ} {samples : List (Cplx R)} {s : PlutoStream} {data : List IqSample}
    (h : TxHolds s data) (hcapacity : s.capacity = capacity) (hfuel : samples.length < fuel) :
    ∃ ret s', plutoTxWriteLoop env scale fuel samples s = some (ret, s') ∧ s'.capacity = capacity ∧
      ((ret = 0 ∧ TxHolds s' (data ++ samples.map (deviceIq env scale))) ∨
        (ret = -1 ∧ (∃ k, env.pushOk k = false) ∧
          s'.pushed <+: data ++ samples.map (deviceIq env scale))) := by
  induction fuel generalizing samples s data with
  | zero => exact absurd hfuel (Nat.not_lt_zero _)
  | succ fuel ih =>
    rw [plutoTxWriteLoop]
    by_cases hnil : samples.length = 0
    · rw [if_pos hnil]
      obtain rfl := List.length_eq_zero_iff.mp hnil
      exact ⟨0, s, rfl, hcapacity, .inl ⟨rfl, by simpa using h⟩⟩
    rw [if_neg hnil]
    dsimp only
    have hroom := h.room
    obtain ⟨count, hcount⟩ : ∃ count, (if samples.length > s.capacity - s.pending then
      s.capacity - s.pending else samples.length) = count := ⟨_, rfl⟩
    have hpos : 0 < count ∧ count ≤ samples.length ∧ s.pending + count ≤ s.capacity := by
      split at hcount <;> omega
    rw [hcount]
    -- the chunk, behind what is pending
    set chunk := (samples.take count).map (deviceIq env scale) with hchunk
    have hlen : chunk.length = count := by
      rw [hchunk, List.length_map, List.length_take, Nat.min_eq_left hpos.2.1]
    have hbuf : (memcpyAt s.buf s.pending chunk).take (s.pending + count)
        = s.buf.take s.pending ++ chunk := by
      rw [memcpyAt, ← hlen]
      exact List.take_left' (by
        rw [List.length_append, List.length_take, h.buf, Nat.min_eq_left hroom.le])
    have hbuflen : (memcpyAt s.buf s.pending chunk).length = s.capacity := by
      rw [memcpyAt, List.length_append, List.length_append, List.length_take, List.length_drop, h.buf,
        hlen]
      omega
    have hdata : s.pushed ++ (memcpyAt s.buf s.pending chunk).take (s.pending + count)
        = data ++ chunk := by
      rw [hbuf, ← List.append_assoc, h.data]
    have hall : data ++ samples.map (deviceIq env scale)
        = data ++ chunk ++ (samples.drop count).map (deviceIq env scale) := by
      rw [List.append_assoc, hchunk, ← List.map_append, List.take_append_drop]
    have hleft : (samples.drop count).length < fuel := by
      rw [List.length_drop]
      omega
    by_cases hfull : s.pending + count = s.capacity
    · rw [if_pos hfull]
      have hpush : (memcpyAt s.buf s.pending chunk).take s.capacity
          = (memcpyAt s.buf s.pending chunk).take (s.pending + count) := by rw [hfull]
      by_cases hok : env.pushOk s.pushes = true
      · rw [iioBufferPush, if_pos hok, hall]
        dsimp only
        rw [if_pos rfl, hpush, hdata]
        refine ih ⟨(Nat.zero_le _).trans_lt hroom, (hmemory _).trans hcapacity.symm, ?_⟩ hcapacity
          hleft
        simp
      · rw [iioBufferPush, if_neg hok]
        dsimp only
        rw [if_neg Bool.false_ne_true]
        refine ⟨_, _, rfl, hcapacity, .inr ⟨rfl, ⟨_, by simpa using hok⟩, ?_⟩⟩
        rw [← h.data, List.append_assoc]
        exact List.prefix_append _ _
    · rw [if_neg hfull, hall]
      exact ih ⟨by dsimp only; omega, hbuflen, hdata⟩ hcapacity hleft

/-- **`pluto_tx_flush`** sends what is pending. -/
theorem TxHolds.flush {s : PlutoStream} {data : List IqSample} (h : TxHolds s data)
    (hok : ∀ k, env.pushOk k = true) :
    (plutoTxFlush env s).1 = 0 ∧ (plutoTxFlush env s).2.pushed = data := by
  have hdata := h.data
  rw [plutoTxFlush]
  by_cases hzero : s.pending = 0
  · rw [if_pos hzero]
    rw [hzero, List.take_zero, List.append_nil] at hdata
    exact ⟨rfl, hdata⟩
  · rw [if_neg hzero, iioBufferPush, if_pos (hok _)]
    exact ⟨rfl, hdata⟩

end

/-! ### The waveform -/

section
variable {R : Type*} [Field R] [LinearOrder R]

/-- The output of a reset filter with the taps of `flt` for the samples `fed`. -/
def filtered (flt : RrcFilter R) (fed : List (Cplx R)) : List (Cplx R) :=
  (List.range fed.length).map (firOutput flt.coeffs flt.numTaps fed)

omit [LinearOrder R] in
/-- Later samples add to the output. -/
theorem filtered_append (flt : RrcFilter R) (fed input : List (Cplx R)) :
    filtered flt (fed ++ input) = filtered flt fed ++ (List.range input.length).map fun n =>
      firOutput flt.coeffs flt.numTaps (fed ++ input) (fed.length + n) := by
  rw [filtered, List.length_append, List.range_add, List.map_append, List.map_map]
  refine congrArg₂ (· ++ ·) (List.map_congr_left fun n hn => ?_) rfl
  exact firOutput_append _ _ _ (List.mem_range.mp hn)

variable (const : Sqrt2 R)

/-- The PL frames of the BBFRAMEs `frames`, one behind the other. -/
def frameSymbols (mod : Modulator R) (frames : List (List Bool)) : List (Cplx R) :=
  frames.flatMap fun bbframe => modFrame const mod.modcod mod.plScramblingIdx
    (txCoded mod.modcod mod.bchEnc mod.ldpcEnc bbframe)

/-- One waveform for all of them. -/
def waveform (mod : Modulator R) (frames : List (List Bool)) : List (Cplx R) :=
  filtered mod.txFilter (zeroStuff mod.sps (frameSymbols const mod frames))

/-- A successful initialisation leaves the filter reset. -/
theorem modulatorInit_reset [IsStrictOrderedRing R] {math : RrcMath R} {modcodIdx : ℕ} {rolloff : R}
    {sps plScramblingIdx : ℕ} {mod : Modulator R}
    (hinit : modulatorInit math modcodIdx rolloff sps plScramblingIdx = some (.ok mod)) :
    rrcFilterReset mod.txFilter = mod.txFilter := by
  rw [modulatorInit] at hinit
  split at hinit
  case h_1 => cases hinit
  case h_2 mc _ =>
    split at hinit
    · cases hinit
    split at hinit
    · cases hinit
    split at hinit
    · cases hinit
    split at hinit
    · cases hinit
    dsimp only at hinit
    split at hinit
    · cases hinit
    rename_i hneg
    obtain rfl := Except.ok.inj (Option.some.inj hinit)
    have hfirst : (rrcFilterInit math rrcFilterZero rolloff sps filterSpan).1 = 0 ∨
        (rrcFilterInit math rrcFilterZero rolloff sps filterSpan).1 = -1 := by
      rw [rrcFilterInit]
      split
      · exact .inr rfl
      · dsimp only
        split
        · exact .inr rfl
        · exact .inl rfl
    have hzero := hfirst.resolve_right fun h => hneg (by rw [h]; decide)
    exact (rrcFilterInit_ready math (Prod.ext hzero rfl)).2

end

/-! ### Frame after frame -/

section
variable {R : Type*} [Field R] [LinearOrder R] [IsStrictOrderedRing R] [FloorRing R] (const : Sqrt2 R)
  {env : IioEnv} {scale : R} {mod : Modulator R}

omit [IsStrictOrderedRing R] in
/-- **One frame**, behind the samples `fed`. -/
theorem plutoSendFrame_holds (hmod : ModReady mod) {capacity : ℕ}
    (hmemory : ∀ k, (env.memory k).length = capacity) (hscale : 0 < scale ∧ scale ≤ 1)
    {flt : RrcFilter R} {fed : List (Cplx R)} (hflt : FilterAt mod.txFilter flt fed)
    {s : PlutoStream} (h : TxHolds s ((filtered mod.txFilter fed).map (deviceIq env scale)))
    (hcapacity : s.capacity = capacity) (bbframe : List Bool) (symbols : List (Cplx R)) :
    let fed' := fed ++ zeroStuff mod.sps (frameSymbols const mod [bbframe])
    let iq := (filtered mod.txFilter fed').map (deviceIq env scale)
    ∃ ret flt' s', plutoSendFrame const env scale { mod with txFilter := flt } s bbframe symbols
        = some (ret, { mod with txFilter := flt' }, s') ∧
      FilterAt mod.txFilter flt' fed' ∧ s'.capacity = capacity ∧
      ((ret = 0 ∧ TxHolds s' iq) ∨ (ret = -1 ∧ (∃ k, env.pushOk k = false) ∧ s'.pushed <+: iq)) := by
  have hlong : ∀ mc ∈ vlsnrModcodTable, ¬vlsnrFrameLong < modFrameLen mc := by decide
  intro fed' iq
  set frame := modFrame const mod.modcod mod.plScramblingIdx
    (txCoded mod.modcod mod.bchEnc mod.ldpcEnc bbframe) with hframe
  have hcall : modulateBbframeSymbols const { mod with txFilter := flt } bbframe symbols vlsnrFrameLong
      = ⟨ok, memcpyAt symbols 0 frame, modFrameLen mod.modcod⟩ := by
    have hmodcod : ({ mod with txFilter := flt } : Modulator R).modcod = mod.modcod := rfl
    exact (modulateBbframeSymbols_eq const hmod.mem hmodcod bbframe symbols vlsnrFrameLong).trans
      (if_neg (hlong _ hmod.mem))
  have htake : (memcpyAt symbols 0 frame).take (modFrameLen mod.modcod) = frame := by
    rw [memcpyAt, List.take_zero, List.nil_append]
    exact List.take_left' (modFrame_length const hmod.mem _ _)
  have hsymbols : frameSymbols const mod [bbframe] = frame := by simp [frameSymbols, hframe]
  obtain ⟨hflt', hout⟩ := rrcFilterApply_spec hmod.filter (zeroStuff mod.sps frame) hflt
  have hup : rrcUpsample flt frame = rrcFilterApply flt (zeroStuff mod.sps frame) := by
    rw [rrcUpsample_eq, hflt.sps_eq, hmod.filter.sps_eq]
  have hiq : iq = (filtered mod.txFilter fed).map (deviceIq env scale)
      ++ (rrcFilterApply flt (zeroStuff mod.sps frame)).2.map (deviceIq env scale) := by
    show (filtered mod.txFilter fed').map _ = _
    rw [← List.map_append, hout, ← filtered_append, ← hsymbols]
  set up := rrcFilterApply flt (zeroStuff mod.sps frame)
  obtain ⟨ret, s', hwrite, hcapacity', hholds⟩ : ∃ ret s',
      plutoTxWriteLoop env scale (up.2.length + 2) up.2 s = some (ret, s') ∧ s'.capacity = capacity ∧
        ((ret = 0 ∧ TxHolds s' ((filtered mod.txFilter fed).map (deviceIq env scale)
            ++ up.2.map (deviceIq env scale))) ∨
          (ret = -1 ∧ (∃ k, env.pushOk k = false) ∧ s'.pushed
            <+: (filtered mod.txFilter fed).map (deviceIq env scale)
              ++ up.2.map (deviceIq env scale))) :=
    plutoTxWriteLoop_holds hmemory h hcapacity (by omega)
  rw [← hiq] at hholds
  refine ⟨ret, up.1, s', ?_, ?_, hcapacity', hholds⟩
  · rw [plutoSendFrame, hcall]
    dsimp only
    rw [if_neg (lt_irrefl 0), htake, hup, plutoTxWrite, if_neg (by
      rintro (hneg | hbig)
      · exact absurd hscale.1 (not_lt.mpr hneg)
      · exact absurd hscale.2 (not_le.mpr hbig)), hwrite]
  · show FilterAt mod.txFilter _ (fed ++ zeroStuff mod.sps (frameSymbols const mod [bbframe]))
    rw [hsymbols]
    exact hflt'

omit [IsStrictOrderedRing R] in
/-- **Any list of frames**, by induction: the invariant is that all that was written is the waveform
of the samples fed so far. -/
theorem plutoSendFrames_holds (hmod : ModReady mod) {capacity : ℕ}
    (hmemory : ∀ k, (env.memory k).length = capacity) (hscale : 0 < scale ∧ scale ≤ 1)
    (symbols : List (Cplx R)) (frames : List (List Bool)) {flt : RrcFilter R} {fed : List (Cplx R)}
    (hflt : FilterAt mod.txFilter flt fed) {s : PlutoStream}
    (h : TxHolds s ((filtered mod.txFilter fed).map (deviceIq env scale)))
    (hcapacity : s.capacity = capacity) :
    let iq := (filtered mod.txFilter
      (fed ++ zeroStuff mod.sps (frameSymbols const mod frames))).map (deviceIq env scale)
    ∃ ret mod' s', plutoSendFrames const env scale symbols { mod with txFilter := flt } s frames
        = some (ret, mod', s') ∧
      ((ret = 0 ∧ TxHolds s' iq) ∨ (ret = -1 ∧ (∃ k, env.pushOk k = false) ∧ s'.pushed <+: iq)) := by
  induction frames generalizing flt fed s with
  | nil => exact ⟨0, _, s, rfl, .inl ⟨rfl, by simpa [frameSymbols, zeroStuff] using h⟩⟩
  | cons bbframe rest ih =>
    obtain ⟨ret, flt', s', hsend, hflt', hcapacity', hholds⟩ := plutoSendFrame_holds const hmod
      hmemory hscale hflt h hcapacity bbframe symbols
    have hsplit : fed ++ zeroStuff mod.sps (frameSymbols const mod (bbframe :: rest))
        = fed ++ zeroStuff mod.sps (frameSymbols const mod [bbframe])
          ++ zeroStuff mod.sps (frameSymbols const mod rest) := by
      simp [frameSymbols, zeroStuff, List.flatMap_append]
    rw [plutoSendFrames, hsend]
    dsimp only
    rw [hsplit]
    rcases hholds with ⟨rfl, hholds⟩ | ⟨rfl, hfails, hprefix⟩
    · rw [if_neg (lt_irrefl 0)]
      exact ih hflt' hholds hcapacity'
    · rw [if_pos (by decide)]
      refine ⟨-1, _, s', rfl, .inr ⟨rfl, hfails, hprefix.trans ?_⟩⟩
      rw [filtered_append _ (fed ++ _), List.map_append]
      exact List.prefix_append _ _

/-- The stream as `pluto_tx_open` leaves it. -/
def plutoTxOpen (capacity : ℕ) (buf : List IqSample) : PlutoStream where
  capacity := capacity
  pending := 0
  buf := buf
  pushes := 0
  pushed := []

/-- **The radio gets one waveform**: whatever frames are sent, however they are cut into buffers and
whatever the buffer holds after a push, what has been pushed is a beginning of the samples of all
frames in a row, filtered without a break, scaled and cut to 16 bits, in the device's format; when
no push fails, it is all of them after the flush. -/
theorem plutoSendFrames_sends {math : RrcMath R} {modcodIdx : ℕ} {rolloff : R}
    {sps plScramblingIdx : ℕ}
    (hinit : modulatorInit math modcodIdx rolloff sps plScramblingIdx = some (.ok mod))
    {capacity : ℕ} (hpos : 0 < capacity) {buf : List IqSample} (hbuf : buf.length = capacity)
    (hmemory : ∀ k, (env.memory k).length = capacity) (hscale : 0 < scale ∧ scale ≤ 1)
    (symbols : List (Cplx R)) (frames : List (List Bool)) :
    let iq := (waveform const mod frames).map (scaleIq scale)
    ∃ ret mod' s', plutoSendFrames const env scale symbols mod (plutoTxOpen capacity buf) frames
        = some (ret, mod', s') ∧ s'.pushed <+: iq.map env.convertInverse ∧
      (∀ q ∈ iq, (int16Min ≤ q.1 ∧ q.1 ≤ int16Max) ∧ int16Min ≤ q.2 ∧ q.2 ≤ int16Max) ∧
      ((∀ k, env.pushOk k = true) →
        ret = 0 ∧ (plutoTxFlush env s').1 = 0 ∧
          (plutoTxFlush env s').2.pushed = iq.map env.convertInverse) := by
  intro iq
  obtain ⟨hmod, -, -, -⟩ := modulatorInit_ready hinit
  have hflt : FilterAt mod.txFilter mod.txFilter [] := by
    have hreset : FilterAt mod.txFilter (rrcFilterReset mod.txFilter) [] :=
      FilterAt.reset hmod.filter rfl rfl rfl
    rwa [modulatorInit_reset hinit] at hreset
  have hstart : TxHolds (plutoTxOpen capacity buf)
      ((filtered mod.txFilter []).map (deviceIq env scale)) := ⟨hpos, hbuf, rfl⟩
  obtain ⟨ret, mod', s', hrun, hholds⟩ := plutoSendFrames_holds const hmod hmemory hscale
    symbols frames hflt hstart rfl
  have hiq : iq.map env.convertInverse = (waveform const mod frames).map (deviceIq env scale) :=
    List.map_map
  rw [List.nil_append, ← waveform, ← hiq] at hholds
  refine ⟨ret, mod', s', hrun, ?_, fun q hq => ?_, fun hok => ?_⟩
  · rcases hholds with ⟨-, hholds⟩ | ⟨-, -, hprefix⟩
    · exact ⟨_, hholds.data⟩
    · exact hprefix
  · obtain ⟨sample, -, rfl⟩ := List.mem_map.mp hq
    exact ⟨scaleSample_fits _ _, scaleSample_fits _ _⟩
  · rcases hholds with ⟨hret, hholds⟩ | ⟨-, ⟨k, hk⟩, -⟩
    · exact ⟨hret, hholds.flush hok⟩
    · exact absurd (hok k) (by rw [hk]; exact Bool.false_ne_true)

end

/-- Two spread short frames through a buffer of four samples, at half the level. -/
theorem plutoSendFrames_sends_two : ∃ mod : Modulator ℝ,
    modulatorInit RrcMath.exact 5 (1 / 5) 2 7 = some (.ok mod) ∧
      let iq := (waveform Sqrt2.exact mod [[true], [false]]).map (scaleIq (1 / 2))
      let env : IioEnv :=
        ⟨fun _ => true, fun _ => List.replicate 4 (0, 0), fun q => (16 * q.1, 16 * q.2)⟩
      ∃ ret mod' s', plutoSendFrames Sqrt2.exact env (1 / 2) [] mod
          (plutoTxOpen 4 (List.replicate 4 (1, 1))) [[true], [false]] = some (ret, mod', s') ∧
        ret = 0 ∧ (plutoTxFlush env s').2.pushed = iq.map env.convertInverse := by
  obtain ⟨mod, hinit, -⟩ := (modulatorInit_accepts RrcMath.exact 5 (1 / 5) 2 7).1
    ⟨by decide, by decide, by norm_num, by decide⟩
  refine ⟨mod, hinit, ?_⟩
  intro iq env
  have hmemory : ∀ k, (env.memory k).length = 4 := fun _ => List.length_replicate
  obtain ⟨ret, mod', s', hrun, -, -, hall⟩ := plutoSendFrames_sends Sqrt2.exact hinit
    (by decide : 0 < 4) (List.length_replicate : (List.replicate 4 ((1, 1) : IqSample)).length = 4)
    hmemory (⟨by norm_num, by norm_num⟩ : (0 : ℝ) < 1 / 2 ∧ (1 / 2 : ℝ) ≤ 1) [] [[true], [false]]
  obtain ⟨hret, -, hpushed⟩ := hall fun _ => rfl
  exact ⟨ret, mod', s', hrun, hret, hpushed⟩

end OpenVlsnr
