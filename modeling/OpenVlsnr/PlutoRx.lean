import OpenVlsnr.DemodHistory
import OpenVlsnr.TsLoss
import OpenVlsnr.TsRxSafety

/-!
# The receiver tool (`openvlsnr-pluto-rx.c`)

`main` feeds the blocks of the receive queue to the streaming demodulator, calls it again without
input until it asks for more, and pushes every decoded BBFRAME into the TS receiver, which it resets
when a push fails.  What the queue hands out, the stages of the demodulator, the signal handler and
the results of `fwrite` are the environment (`QueueEvent`, `RxEnv`); `decoded` records every BBFRAME
that the demodulator has delivered.

* `rxMain_ends` - both loops end with the stream, as every call that goes on removes samples;
* `rxMain_losses` - whatever frames of a transport stream the demodulator misses, the output file
  holds packets of the stream in order, and all that the losses do not touch.
-/

namespace OpenVlsnr

section
variable (R : Type*) [Field R] [LinearOrder R]

/-! ### The tool -/

abbrev rxPacketCapacity : ℕ := 16

/-- The options that steer the loop. -/
structure RxOptions where
  sps : ℕ
  maxFrames : ℕ
  ldpcIterations : ℕ

/-- What `pluto_rx_queue_acquire` hands out; a stop request while it waits is an `endOfStream`. -/
inductive QueueEvent where
  | block (samples : List (Cplx R))
  | endOfStream
  | error

/-- The stages of the `k`-th call of the demodulator, whether the signal handler runs before it, and
whether the `k`-th write succeeds. -/
structure RxEnv where
  stages : ℕ → RxStages R
  signal : ℕ → Bool
  writeOk : ℕ → Bool

/-- The variables of `main`. -/
structure RxMain where
  demod : Demodulator R
  ts : TsRx
  bbframe : List Bool
  packets : List PacketBuf
  output : List PacketBuf
  frameCount : ℕ
  packetCount : ℕ
  syncFailures : ℕ
  fecFailures : ℕ
  tsFailures : ℕ
  stopRequested : Bool
  calls : ℕ
  writes : ℕ
  decoded : List (Modcod × List Bool)

end

section
variable {R : Type*} [Field R] [LinearOrder R]

/-- `struct dvbs2x_ts_rx ts = { 0 }`. -/
def tsRxZero : TsRx where
  bb := { kBch := 0, streamType := .ts, upl := 0, dfl := 0, ro := 0 }
  packet := Vector.replicate tsPacketSize 0
  previous := Vector.replicate tsPacketSize 0
  packetBits := 0
  havePrevious := false

/-- `stop_handler`, when it runs before this call. -/
def rxSignal (env : RxEnv R) (s : RxMain R) : RxMain R :=
  if env.signal s.calls then
    { s with stopRequested := true, demod := demodulatorRequestCancel s.demod }
  else s

/-- `dvbs2x_demodulate_bbframe_stream_ex` on the variables of `main`. -/
def rxCall (env : RxEnv R) (s : RxMain R) (samples : List (Cplx R)) : ℤ × RxMain R :=
  let s := rxSignal env s
  let call := demodulateStream (env.stages s.calls) s.demod samples s.bbframe ldpcNormal true
  (call.ret, { s with demod := call.demod, bbframe := call.output, calls := s.calls + 1 })

/-- `write_packets`. -/
def writePackets (env : RxEnv R) (s : RxMain R) (count : ℕ) : ℤ × RxMain R :=
  if count = 0 then (0, s)
  else if env.writeOk s.writes then
    (0, { s with output := s.output ++ s.packets.take count, writes := s.writes + 1 })
  else (-1, { s with writes := s.writes + 1 })

/-- `process_bbframe`. -/
def processBbframe (env : RxEnv R) (s : RxMain R) : ℤ × RxMain R :=
  let push := tsRxPush s.ts s.bbframe s.packets rxPacketCapacity
  if push.ret < 0 then (push.ret, { s with ts := push.rx, packets := push.packets })
  else
    let w := writePackets env { s with ts := push.rx, packets := push.packets } push.packetCount
    if w.1 < 0 then (-1, w.2)
    else (0, { w.2 with packetCount := w.2.packetCount + push.packetCount })

/-- The TS receiver for the MODCOD of a frame. -/
def rxContext (ts : TsRx) (mc : Modcod) : TsRx :=
  let ts := if ts.bb.kBch = 0 then tsRxInit mc else ts
  if ts.bb.kBch ≠ mc.kBch then tsRxInit mc else ts

/-- The branch for a decoded frame; `error` is the jump to `out`. -/
def rxDecoded (env : RxEnv R) (s : RxMain R) : Except (RxMain R) (RxMain R) :=
  match s.demod.modcod with
  | none => .error { s with frameCount := s.frameCount + 1 }
  | some mc =>
    let r := processBbframe env
      { s with
        frameCount := s.frameCount + 1
        decoded := s.decoded ++ [(mc, s.bbframe.take mc.kBch)]
        ts := rxContext s.ts mc }
    if r.1 < 0 then .ok { r.2 with tsFailures := r.2.tsFailures + 1, ts := tsRxReset r.2.ts }
    else .ok r.2

/-- What one result of the demodulator leads to. -/
def rxResult (env : RxEnv R) (s : RxMain R) (dret : ℤ) : Except (RxMain R) (RxMain R) :=
  if dret = 0 then rxDecoded env s
  else if dret = errNosync then .ok { s with syncFailures := s.syncFailures + 1 }
  else .ok { s with fecFailures := s.fecFailures + 1 }

/-- `while (dret != DVBS2X_ERR_SHORT)`, `fuel` rounds of it. -/
def rxDrain (env : RxEnv R) (options : RxOptions) :
    ℕ → ℤ → RxMain R → Option (Except (RxMain R) (RxMain R))
  | 0, _, _ => none
  | fuel + 1, dret, s =>
    if dret = errShort then some (.ok s)
    else
      match rxResult env s dret with
      | .error s => some (.error s)
      | .ok s =>
        if options.maxFrames ≠ 0 ∧ s.frameCount ≥ options.maxFrames then
          some (.ok { s with stopRequested := true })
        else
          let call := rxCall env s []
          rxDrain env options fuel call.1 call.2

/-- One block.  A call that goes on removes a sample, so two rounds more than there are samples are
more than the inner loop can make. -/
def rxBlock (env : RxEnv R) (options : RxOptions) (s : RxMain R) (samples : List (Cplx R)) :
    Option (Except (RxMain R) (RxMain R)) :=
  let call := rxCall env s samples
  rxDrain env options (call.2.demod.streamBuf.length + 2) call.1 call.2

/-- Where control is: waiting for the queue, past the loop, or at the label `out` with `ret = 1`. -/
inductive RxFlow (R : Type*) where
  | waiting (s : RxMain R)
  | done (s : RxMain R)
  | out (s : RxMain R)

/-- `while (!stop_requested)`, over what the queue hands out. -/
def rxLoop (env : RxEnv R) (options : RxOptions) (s : RxMain R) :
    List (QueueEvent R) → Option (RxFlow R)
  | [] => some (if s.stopRequested then .done s else .waiting s)
  | ev :: evs =>
    if s.stopRequested then some (.done s)
    else
      match ev with
      | .endOfStream => some (.done s)
      | .error => some (.out s)
      | .block samples =>
        match rxBlock env options s samples with
        | none => none
        | some (.error s) => some (.out s)
        | some (.ok s) => rxLoop env options s evs

/-- What follows the loop: the last packet goes out unchecked. -/
def rxFinish (env : RxEnv R) (s : RxMain R) : ℤ × RxMain R :=
  if s.ts.bb.kBch = 0 then (0, s)
  else
    let last := tsRxFinalizeUnchecked s.ts s.packets 1
    let s := { s with ts := last.rx, packets := last.packets }
    if last.ret < 0 then (1, s)
    else
      let w := writePackets env s last.packetCount
      if w.1 < 0 then (1, w.2)
      else (0, { w.2 with packetCount := w.2.packetCount + last.packetCount })

/-- The variables when the loop is entered. -/
def rxStart (demod : Demodulator R) (bbframe : List Bool) (packets : List PacketBuf) : RxMain R where
  demod := demod
  ts := tsRxZero
  bbframe := bbframe
  packets := packets
  output := []
  frameCount := 0
  packetCount := 0
  syncFailures := 0
  fecFailures := 0
  tsFailures := 0
  stopRequested := false
  calls := 0
  writes := 0
  decoded := []

/-- What `dvbs2x_demodulator_init` leaves behind when it fails. -/
def demodZero : Demodulator R :=
  { freshDemodulator 0 0 0 with numTaps := 0, maxLdpcIterations := 0 }

/-- `main` from the set-up of the demodulator on, with fresh buffers, a radio that opens and
allocations that succeed: its exit code and final variables, or `none` while it waits for the
queue. -/
def rxMain (env : RxEnv R) (options : RxOptions) (bbframe : List Bool) (packets : List PacketBuf)
    (events : List (QueueEvent R)) : Option (ℤ × RxMain R) :=
  match demodulatorInit (7 / 20 : R) options.sps 0 with
  | .error _ => some (1, rxStart demodZero bbframe packets)
  | .ok demod =>
    let limit := demodulatorSetMaxLdpcIterations demod options.ldpcIterations
    if limit.1 < 0 then some (1, rxStart limit.2 bbframe packets)
    else
      match rxLoop env options (rxStart limit.2 bbframe packets) events with
      | none => none
      | some (.waiting _) => none
      | some (.done s) => some (rxFinish env s)
      | some (.out s) => some (1, s)

/-! ### One round -/

/-- What the TS side of the tool has seen and done. -/
def RxMain.tsSide (s : RxMain R) : List (Modcod × List Bool) × TsRx × List PacketBuf × ℕ :=
  (s.decoded, s.ts, s.output, s.packetCount)

theorem rxSignal_tsSide (env : RxEnv R) (s : RxMain R) : (rxSignal env s).tsSide = s.tsSide := by
  rw [rxSignal]
  split <;> rfl

theorem rxCall_tsSide (env : RxEnv R) (s : RxMain R) (samples : List (Cplx R)) :
    (rxCall env s samples).2.tsSide = s.tsSide := rxSignal_tsSide env s

/-- The variables behind a result, whatever it leads to. -/
def rxVars : Except (RxMain R) (RxMain R) → RxMain R
  | .ok s => s
  | .error s => s

theorem writePackets_keeps (env : RxEnv R) (s : RxMain R) (count : ℕ) :
    let w := (writePackets env s count).2
    w.demod = s.demod ∧ w.decoded = s.decoded ∧ w.calls = s.calls ∧
      w.stopRequested = s.stopRequested := by
  dsimp only
  rw [writePackets]
  split
  · exact ⟨rfl, rfl, rfl, rfl⟩
  · split <;> exact ⟨rfl, rfl, rfl, rfl⟩

theorem processBbframe_keeps (env : RxEnv R) (s : RxMain R) :
    let r := (processBbframe env s).2
    r.demod = s.demod ∧ r.decoded = s.decoded ∧ r.calls = s.calls ∧
      r.stopRequested = s.stopRequested := by
  rw [processBbframe]
  dsimp only
  split
  · exact ⟨rfl, rfl, rfl, rfl⟩
  · split
    · exact writePackets_keeps env _ _
    · exact writePackets_keeps env _ _

/-- What a decoded frame leaves alone, and what it adds to the record. -/
theorem rxDecoded_keeps (env : RxEnv R) (s : RxMain R) :
    let s' := rxVars (rxDecoded env s)
    s'.demod = s.demod ∧
      s'.decoded = s.decoded ++ (s.demod.modcod.map fun mc => (mc, s.bbframe.take mc.kBch)).toList ∧
      s'.calls = s.calls ∧ s'.stopRequested = s.stopRequested := by
  dsimp only
  rw [rxDecoded]
  cases hmodcod : s.demod.modcod with
  | none => exact ⟨rfl, (List.append_nil _).symm, rfl, rfl⟩
  | some mc =>
    dsimp only
    split
    · exact processBbframe_keeps env _
    · exact processBbframe_keeps env _

/-- What follows a call leaves the demodulator alone. -/
theorem rxResult_demod (env : RxEnv R) (s : RxMain R) (dret : ℤ) :
    (rxVars (rxResult env s dret)).demod = s.demod := by
  rw [rxResult]
  split
  · exact (rxDecoded_keeps env s).1
  · split <;> rfl

/-- **The rounds of the inner loop**: what every call and every result keeps. -/
theorem rxDrain_keeps {env : RxEnv R} {options : RxOptions} {P : RxMain R → Prop}
    (hcall : ∀ s, P s → P (rxCall env s []).2)
    (hresult : ∀ s dret, P s → P (rxVars (rxResult env s dret)))
    (hstop : ∀ s, P s → P { s with stopRequested := true }) {fuel : ℕ} {dret : ℤ} {s : RxMain R}
    (h : P s) {r : Except (RxMain R) (RxMain R)} (hr : rxDrain env options fuel dret s = some r) :
    P (rxVars r) := by
  induction fuel generalizing dret s with
  | zero => cases hr
  | succ fuel ih =>
    rw [rxDrain] at hr
    by_cases hshort : dret = errShort
    · rw [if_pos hshort] at hr
      obtain rfl := Option.some.inj hr
      exact h
    · rw [if_neg hshort] at hr
      have hnext := hresult s dret h
      generalize rxResult env s dret = result at hr hnext
      cases result with
      | error s' =>
        obtain rfl := Option.some.inj hr
        exact hnext
      | ok s' =>
        dsimp only at hr
        split at hr
        · obtain rfl := Option.some.inj hr
          exact hstop s' hnext
        · exact ih (hcall s' hnext) hr

/-- The variables where control is. -/
def RxFlow.vars : RxFlow R → RxMain R
  | .waiting s => s
  | .done s => s
  | .out s => s

/-- **The rounds of the outer loop.** -/
theorem rxLoop_keeps {env : RxEnv R} {options : RxOptions} {P : RxMain R → Prop}
    (hcall : ∀ s samples, P s → P (rxCall env s samples).2)
    (hresult : ∀ s dret, P s → P (rxVars (rxResult env s dret)))
    (hstop : ∀ s, P s → P { s with stopRequested := true }) {s : RxMain R} (h : P s)
    {events : List (QueueEvent R)} {flow : RxFlow R}
    (hflow : rxLoop env options s events = some flow) : P flow.vars := by
  induction events generalizing s with
  | nil =>
    rw [rxLoop] at hflow
    obtain rfl := Option.some.inj hflow
    split <;> exact h
  | cons ev events ih =>
    rw [rxLoop.eq_def] at hflow
    dsimp only at hflow
    by_cases hstopped : s.stopRequested = true
    · rw [if_pos hstopped] at hflow
      obtain rfl := Option.some.inj hflow
      exact h
    · rw [if_neg hstopped] at hflow
      cases ev with
      | endOfStream =>
        obtain rfl := Option.some.inj hflow
        exact h
      | error =>
        obtain rfl := Option.some.inj hflow
        exact h
      | block samples =>
        dsimp only at hflow
        cases hblock : rxBlock env options s samples with
        | none =>
          rw [hblock] at hflow
          cases hflow
        | some r =>
          rw [hblock] at hflow
          have hnext := rxDrain_keeps (fun s => hcall s []) hresult hstop (hcall s samples h) hblock
          cases r with
          | error s' =>
            obtain rfl := Option.some.inj hflow
            exact hnext
          | ok s' => exact ih hnext hflow

/-- A block with one frame: a call that receives it, and one that waits. -/
theorem rxBlock_received {env : RxEnv R} {options : RxOptions} (hmax : options.maxFrames = 0)
    {s s' : RxMain R} {samples : List (Cplx R)} (hret : (rxCall env s samples).1 = ok)
    (hdecoded : rxDecoded env (rxCall env s samples).2 = .ok s')
    (hwait : (rxCall env s' []).1 = errShort) :
    rxBlock env options s samples = some (.ok (rxCall env s' []).2) := by
  unfold rxBlock
  dsimp only
  rw [rxDrain, if_neg (by rw [hret]; decide), rxResult, if_pos hret, hdecoded]
  dsimp only
  rw [if_neg fun h => h.1 hmax, rxDrain, if_pos hwait]

theorem rxLoop_block {env : RxEnv R} {options : RxOptions} {s s' : RxMain R}
    (hrun : s.stopRequested = false) {samples : List (Cplx R)}
    (hblock : rxBlock env options s samples = some (.ok s')) (events : List (QueueEvent R)) :
    rxLoop env options s (.block samples :: events) = rxLoop env options s' events := by
  rw [rxLoop.eq_def]
  dsimp only
  rw [if_neg (by rw [hrun]; exact Bool.false_ne_true), hblock]

theorem rxLoop_endOfStream (env : RxEnv R) (options : RxOptions) {s : RxMain R}
    (hrun : s.stopRequested = false) (events : List (QueueEvent R)) :
    rxLoop env options s (.endOfStream :: events) = some (.done s) := by
  rw [rxLoop.eq_def]
  dsimp only
  rw [if_neg (by rw [hrun]; exact Bool.false_ne_true)]

/-! ### The loops end -/

/-- What a call makes of the buffer: no more than it got, and less when it goes on. -/
theorem rxCall_buffer (env : RxEnv R) {s : RxMain R} {history : List (Cplx R)}
    (h : StreamInv s.demod history) (samples : List (Cplx R)) :
    let r := rxCall env s samples
    (∃ history', StreamInv r.2.demod history') ∧ r.2.demod.numTaps = s.demod.numTaps ∧
      r.2.demod.streamBuf.length ≤ s.demod.streamBuf.length + samples.length ∧
      (r.1 ≠ errShort →
        s.demod.streamBuf.length + samples.length < uintMax - s.demod.numTaps →
        r.2.demod.streamBuf.length < s.demod.streamBuf.length + samples.length) := by
  intro r
  -- the handler leaves the buffer alone
  obtain ⟨hsignal, hbuf, htaps⟩ : StreamInv (rxSignal env s).demod history ∧
      (rxSignal env s).demod.streamBuf = s.demod.streamBuf ∧
      (rxSignal env s).demod.numTaps = s.demod.numTaps := by
    rw [rxSignal]
    split
    · exact ⟨⟨h.sps_pos, h.suffix, h.fits, h.cap_le⟩, rfl, rfl⟩
    · exact ⟨h, rfl, rfl⟩
  set demod := (rxSignal env s).demod
  set rx := env.stages (rxSignal env s).calls
  set bbframe := (rxSignal env s).bbframe
  have hstep := hsignal.step (.stream rx samples bbframe ldpcNormal true)
  obtain ⟨-, -, htaps'⟩ := demodulateStream_cap rx hsignal.fits hsignal.cap_le samples bbframe
    ldpcNormal true
  obtain ⟨removed, heffect⟩ := demodulateStream_effect rx hsignal.sps_pos samples bbframe ldpcNormal
    true
  have hlen : r.2.demod.streamBuf.length
      = demod.streamBuf.length + (samples.take (demodulateStream rx demod samples bbframe ldpcNormal
        true).consumed).length - removed := by
    show (demodulateStream rx demod samples bbframe ldpcNormal true).demod.streamBuf.length = _
    rw [heffect.streamBuf, List.length_drop, List.length_append]
  have htake : (samples.take (demodulateStream rx demod samples bbframe ldpcNormal
      true).consumed).length ≤ samples.length := List.length_take_le' _ _
  have hremoved := heffect.removed_le
  have hconsumed : (demodulateStream rx demod samples bbframe ldpcNormal true).consumed
      ≤ samples.length := by
    rcases heffect.consumed with h | h <;> omega
  refine ⟨⟨_, hstep⟩, htaps'.trans htaps, ?_, fun hgoes hfew => ?_⟩
  · rw [hlen, hbuf]
    omega
  · have hprogress := heffect.progress hgoes (by rw [hbuf, htaps]; exact hfew)
    rw [hlen, hbuf]
    rw [hbuf] at hremoved
    omega

/-- **The inner loop ends**: every call that goes on shortens the buffer. -/
theorem rxDrain_ends (env : RxEnv R) (options : RxOptions) {fuel : ℕ} {dret : ℤ} {s : RxMain R}
    {history : List (Cplx R)} (h : StreamInv s.demod history)
    (hfew : s.demod.streamBuf.length < uintMax - s.demod.numTaps)
    (hfuel : 0 < fuel ∧ (dret ≠ errShort → s.demod.streamBuf.length + 2 ≤ fuel)) :
    ∃ r, rxDrain env options fuel dret s = some r := by
  induction fuel generalizing dret s history with
  | zero => exact absurd hfuel.1 (lt_irrefl 0)
  | succ fuel ih =>
    rw [rxDrain]
    by_cases hshort : dret = errShort
    · rw [if_pos hshort]
      exact ⟨_, rfl⟩
    · rw [if_neg hshort]
      have hlong := hfuel.2 hshort
      have hdemod := rxResult_demod env s dret
      generalize rxResult env s dret = result at hdemod
      cases result with
      | error s' => exact ⟨_, rfl⟩
      | ok s' =>
        dsimp only
        split
        · exact ⟨_, rfl⟩
        · rw [show (rxVars (.ok s') : RxMain R) = s' from rfl] at hdemod
          obtain ⟨⟨history', hinv⟩, htaps, hlen, hless⟩ :=
            rxCall_buffer env (hdemod.symm ▸ h : StreamInv s'.demod history) []
          rw [hdemod, List.length_nil, Nat.add_zero] at hlen hless
          refine ih hinv (by rw [htaps, hdemod]; omega) ⟨by omega, fun hgoes => ?_⟩
          have := hless hgoes hfew
          omega

def QueueEvent.size : QueueEvent R → ℕ
  | .block samples => samples.length
  | .endOfStream => 0
  | .error => 0

/-- **The outer loop ends** when the queue does. -/
theorem rxLoop_ends (env : RxEnv R) (options : RxOptions) {events : List (QueueEvent R)}
    {s : RxMain R} {history : List (Cplx R)} (h : StreamInv s.demod history)
    (hfew : s.demod.streamBuf.length + (events.map QueueEvent.size).sum
      < uintMax - s.demod.numTaps) :
    ∃ flow, rxLoop env options s events = some flow ∧
      (.endOfStream ∈ events ∨ .error ∈ events → ∀ s', flow ≠ .waiting s') := by
  induction events generalizing s history with
  | nil => exact ⟨_, rfl, fun hends => by simp at hends⟩
  | cons ev events ih =>
    rw [rxLoop.eq_def]
    dsimp only
    rw [List.map_cons, List.sum_cons] at hfew
    by_cases hstopped : s.stopRequested = true
    · rw [if_pos hstopped]
      exact ⟨_, rfl, fun _ s' hs' => nomatch hs'⟩
    rw [if_neg hstopped]
    cases ev with
    | endOfStream => exact ⟨_, rfl, fun _ s' hs' => nomatch hs'⟩
    | error => exact ⟨_, rfl, fun _ s' hs' => nomatch hs'⟩
    | block samples =>
      have hsize : QueueEvent.size (.block samples : QueueEvent R) = samples.length := rfl
      obtain ⟨⟨history', hinv⟩, htaps, hlen, hless⟩ := rxCall_buffer env h samples
      obtain ⟨r, hr⟩ : ∃ r, rxBlock env options s samples = some r :=
        rxDrain_ends env options hinv (by rw [htaps]; omega) ⟨by omega, fun _ => le_rfl⟩
      -- the drain leaves no more than the call
      obtain ⟨⟨history₂, hinv₂⟩, htaps₂, hlen₂⟩ :
          (∃ history, StreamInv (rxVars r).demod history) ∧
            (rxVars r).demod.numTaps = s.demod.numTaps ∧
            (rxVars r).demod.streamBuf.length ≤ s.demod.streamBuf.length + samples.length := by
        refine rxDrain_keeps (P := fun v => (∃ history, StreamInv v.demod history) ∧
            v.demod.numTaps = s.demod.numTaps ∧
            v.demod.streamBuf.length ≤ s.demod.streamBuf.length + samples.length)
          (fun v hv => ?_) (fun v dret hv => ?_) (fun v hv => hv) ⟨⟨_, hinv⟩, htaps, hlen⟩ hr
        · obtain ⟨⟨_, hv₁⟩, hv₂, hv₃⟩ := hv
          obtain ⟨hstream, htaps', hlen', -⟩ := rxCall_buffer env hv₁ []
          exact ⟨hstream, htaps'.trans hv₂, hlen'.trans hv₃⟩
        · rw [rxResult_demod]
          exact hv
      dsimp only
      rw [hr]
      cases r with
      | error s' => exact ⟨_, rfl, fun _ s' hs' => nomatch hs'⟩
      | ok s' =>
        obtain ⟨flow, hflow, hends⟩ := ih (s := s') hinv₂ (by
          rw [show (s' : RxMain R) = rxVars (.ok s') from rfl, htaps₂]
          omega)
        exact ⟨flow, hflow, fun hmem => hends (by simpa using hmem)⟩

/-- **The tool ends** when the queue does, as long as the samples can be counted. -/
theorem rxMain_ends (env : RxEnv R) (options : RxOptions) (bbframe : List Bool)
    (packets : List PacketBuf) {events : List (QueueEvent R)}
    (hends : .endOfStream ∈ events ∨ .error ∈ events)
    (hfew : (events.map QueueEvent.size).sum < uintMax - (2 * filterSpan * options.sps + 1)) :
    ∃ ret s, rxMain env options bbframe packets events = some (ret, s) := by
  rw [rxMain]
  cases hinit : demodulatorInit (7 / 20 : R) options.sps 0 with
  | error _ => exact ⟨_, _, rfl⟩
  | ok demod =>
    obtain ⟨rfl, hsps, -, -⟩ := demodulatorInit_ok hinit
    dsimp only
    split
    · exact ⟨_, _, rfl⟩
    set limit := (demodulatorSetMaxLdpcIterations (freshDemodulator (7 / 20 : R) options.sps 0)
      options.ldpcIterations).2 with hdemod
    -- the limit leaves the buffer alone
    obtain ⟨hinv, hbuf, htaps⟩ : StreamInv limit [] ∧ limit.streamBuf = [] ∧
        limit.numTaps = 2 * filterSpan * options.sps + 1 := by
      have hsps' : 0 < options.sps := by omega
      rw [hdemod, demodulatorSetMaxLdpcIterations]
      split
      · exact ⟨⟨hsps', List.suffix_rfl, le_rfl, Nat.zero_le _⟩, rfl, rfl⟩
      · exact ⟨⟨hsps', List.suffix_rfl, le_rfl, Nat.zero_le _⟩, rfl, rfl⟩
    obtain ⟨flow, hflow, hnot⟩ := rxLoop_ends env options (s := rxStart limit bbframe packets)
      hinv (by
        show limit.streamBuf.length + (events.map QueueEvent.size).sum < uintMax - limit.numTaps
        rw [hbuf, htaps, List.length_nil, Nat.zero_add]
        exact hfew)
    rw [hflow]
    cases flow with
    | waiting s => exact absurd rfl (hnot hends s)
    | done s => exact ⟨_, _, rfl⟩
    | out s => exact ⟨_, _, rfl⟩

/-- A block of 42000 samples, then the end of the stream. -/
theorem rxMain_ends_block : ∃ ret s, rxMain
    ⟨fun _ => scriptedStages (fixedSync (plheaderLen + 2) 9) 0, fun _ => false, fun _ => true⟩
    ⟨2, 0, 12⟩ [] [] [.block (List.replicate 42000 (0 : Cplx ℚ)), .endOfStream] = some (ret, s) :=
  rxMain_ends _ _ [] [] (.inl (List.mem_cons_of_mem _ List.mem_cons_self)) (by
    simp only [List.map_cons, List.map_nil, QueueEvent.size, List.length_replicate, List.sum_cons,
      List.sum_nil]
    decide)

/-! ### What comes out -/

/-- A push that succeeds hands out as many packets as it counts. -/
theorem tsRxPush_emits {rx : TsRx} {bbframe : List Bool} {packets : List PacketBuf} {capacity : ℕ}
    (h : (tsRxPush rx bbframe packets capacity).ret = ok) :
    let q := tsRxPush rx bbframe packets capacity
    (q.packets.take q.packetCount).length = q.packetCount := by
  obtain ⟨-, -, l, -, -, -, -, heq⟩ := tsRxPush_accepted h
  rw [heq]
  simp [memcpyAt]

theorem tsRxFinalize_emits (rx : TsRx) (packets : List PacketBuf) :
    let q := tsRxFinalizeUnchecked rx packets 1
    q.ret = ok → (q.packets.take q.packetCount).length = q.packetCount := by
  rcases tsRxFinalize_cases rx packets 1 with heq | ⟨output, heq, -⟩
  · rw [heq]
    exact fun h => absurd h (show errShort ≠ ok by decide)
  · rw [heq]
    simp [memcpyAt]

/-- Writing that succeeds. -/
theorem writePackets_ok {env : RxEnv R} (hwrites : ∀ k, env.writeOk k = true) (s : RxMain R)
    (count : ℕ) :
    let w := writePackets env s count
    w.1 = 0 ∧ w.2.output = s.output ++ s.packets.take count ∧ w.2.ts = s.ts ∧
      w.2.packetCount = s.packetCount := by
  dsimp only
  rw [writePackets]
  by_cases hzero : count = 0
  · simp [hzero]
  · simp [hzero, hwrites]

/-- A receiver of this MODCOD stays. -/
theorem rxContext_of_eq {ts : TsRx} {mc : Modcod} (h : ts.bb.kBch = mc.kBch) (hmc : mc.kBch ≠ 0) :
    rxContext ts mc = ts := by
  simp [rxContext, h, hmc]

/-- A receiver that has never been set up is. -/
theorem rxContext_of_zero {ts : TsRx} {mc : Modcod} (h : ts.bb.kBch = 0) :
    rxContext ts mc = tsRxInit mc := by
  have hinit : (tsRxInit mc).bb.kBch = mc.kBch := rfl
  simp [rxContext, h, hinit]

section Tracks
variable {mc : Modcod} {ro : Byte} {p : ℕ → TsPacket}

/-- What the TS side has done with the frames `received` of the stream. -/
structure RxTracks (mc : Modcod) (ro : Byte) (p : ℕ → TsPacket) (received out : List ℕ) (e : ℕ)
    (s : RxMain R) : Prop where
  output : s.output = out.map fun k => (p k).bytes
  count : s.packetCount = out.length
  context : s.ts.bb.kBch = 0 ∨ s.ts.bb.kBch = mc.kBch
  heard : Heard (tsContext mc ro) p received out e (rxContext s.ts mc)

/-- The invariant of the tool: as long as the frames decoded are some of the stream, in order, and
the gaps show. -/
def RxFollows (mc : Modcod) (ro : Byte) (p : ℕ → TsPacket) (s : RxMain R) : Prop :=
  ∀ received : List ℕ,
    s.decoded = received.map (fun j => (mc, frameAt (tsContext mc ro) p j)) →
    received.IsChain (Follows (tsContext mc ro).dfl) →
    ∀ e, (∀ i ∈ received.getLast?, e = i + 1) → ∃ out, RxTracks mc ro p received out e s

omit [Field R] [LinearOrder R] in
theorem RxFollows.of_tsSide {s s' : RxMain R} (h : RxFollows mc ro p s) (hside : s'.tsSide = s.tsSide) :
    RxFollows mc ro p s' := by
  simp only [RxMain.tsSide, Prod.mk.injEq] at hside
  obtain ⟨hdecoded, hts, houtput, hcount⟩ := hside
  intro received hreceived hchain e he
  obtain ⟨out, hout⟩ := h received (hdecoded ▸ hreceived) hchain e he
  exact ⟨out, houtput.trans hout.output, hcount.trans hout.count, hts.symm ▸ hout.context,
    hts.symm ▸ hout.heard⟩

/-- **A decoded frame**: the TS side takes the step of a receiver that is reset when a push fails. -/
theorem rxDecoded_step {env : RxEnv R} (hwrites : ∀ k, env.writeOk k = true) {s : RxMain R}
    (hmodcod : s.demod.modcod = some mc) (packets : List PacketBuf) :
    let r := tsRxResyncStep s.packets rxPacketCapacity ⟨rxContext s.ts mc, packets, []⟩ s.bbframe
    let s' := rxVars (rxDecoded env s)
    r.rets = [ok] ∨ r.rets = [errNosync] →
      s'.ts = r.rx ∧ ∃ new, r.packets = packets ++ new ∧ s'.output = s.output ++ new ∧
        s'.packetCount = s.packetCount + new.length := by
  intro r s' hrets
  set push := tsRxPush (rxContext s.ts mc) s.bbframe s.packets rxPacketCapacity with hpush
  set s₁ : RxMain R :=
    { s with
      frameCount := s.frameCount + 1
      decoded := s.decoded ++ [(mc, s.bbframe.take mc.kBch)]
      ts := push.rx
      packets := push.packets } with hs₁
  by_cases hneg : push.ret < 0
  · -- the push fails: nothing is written, and the receiver is reset
    have hr : r = ⟨tsRxReset push.rx, packets, [push.ret]⟩ := if_pos hneg
    have hs' : s' = { s₁ with tsFailures := s.tsFailures + 1, ts := tsRxReset push.rx } := by
      show rxVars (rxDecoded env s) = _
      rw [rxDecoded, hmodcod]
      dsimp only
      rw [processBbframe]
      dsimp only
      rw [← hpush, if_pos hneg]
      dsimp only
      rw [if_pos hneg]
      rfl
    rw [hs', hr]
    exact ⟨rfl, [], (List.append_nil _).symm, (List.append_nil _).symm, rfl⟩
  · have hr : r = ⟨push.rx, packets ++ push.packets.take push.packetCount, [push.ret]⟩ :=
      if_neg hneg
    have hok : push.ret = ok := by
      rw [hr] at hrets
      rcases hrets with h | h
      · exact (List.cons.inj h).1
      · rw [(List.cons.inj h).1] at hneg
        exact absurd (show errNosync < 0 by decide) hneg
    obtain ⟨hret, houtput, hts, hcount⟩ := writePackets_ok hwrites s₁ push.packetCount
    have hs' : s' = { (writePackets env s₁ push.packetCount).2 with
        packetCount := (writePackets env s₁ push.packetCount).2.packetCount + push.packetCount } := by
      show rxVars (rxDecoded env s) = _
      rw [rxDecoded, hmodcod]
      dsimp only
      rw [processBbframe]
      dsimp only
      rw [← hpush, if_neg hneg]
      rw [← hs₁, hret, if_neg (lt_irrefl 0), if_neg (lt_irrefl 0)]
      rfl
    rw [hs', hr]
    refine ⟨hts, _, rfl, houtput, ?_⟩
    rw [show (push.packets.take push.packetCount).length = push.packetCount from tsRxPush_emits hok]
    exact congrArg (· + push.packetCount) hcount

/-- The packet buffer holds what a frame can hand out. -/
theorem rxPacketCapacity_le : ∀ mc ∈ vlsnrModcodTable,
    (mc.kBch - bbHeaderBits + (tsPacketBits - 1)) / tsPacketBits ≤ rxPacketCapacity := by decide

/-- **One result** keeps it. -/
theorem RxFollows.result (hmc : mc ∈ vlsnrModcodTable) {env : RxEnv R}
    (hwrites : ∀ k, env.writeOk k = true) {s : RxMain R} (h : RxFollows mc ro p s) (dret : ℤ) :
    RxFollows mc ro p (rxVars (rxResult env s dret)) := by
  have hbb := tsContext_valid hmc ro
  by_cases hzero : dret = 0
  · rw [rxResult, if_pos hzero]
    have hdecoded := (rxDecoded_keeps env s).2.1
    cases hmodcod : s.demod.modcod with
    | none =>
      refine h.of_tsSide ?_
      rw [rxDecoded, hmodcod]
      rfl
    | some mc' =>
      intro received hreceived hchain e he
      rw [hdecoded, hmodcod] at hreceived
      -- the last frame, and those before it
      obtain ⟨before, last, rfl, hbefore, hlast⟩ := List.append_eq_map_iff.mp hreceived
      obtain ⟨j, rfl, hj⟩ := List.map_eq_singleton_iff.mp hlast
      obtain ⟨rfl, hframe⟩ := Prod.mk.inj hj
      obtain ⟨hchain', -, hfollows⟩ := List.isChain_append.mp hchain
      obtain rfl : e = j + 1 := he j (by simp)
      obtain ⟨e₀, he₀, hej, hgap⟩ : ∃ e₀, (∀ i ∈ before.getLast?, e₀ = i + 1) ∧ e₀ ≤ j ∧
          (j = e₀ ∨ ¬tsPacketBits ∣ (j - e₀) * (tsContext mc ro).dfl) := by
        cases hl : before.getLast? with
        | none => exact ⟨j, by simp, le_rfl, .inl rfl⟩
        | some i =>
          obtain ⟨hij, hgap⟩ := hfollows i hl j rfl
          exact ⟨i + 1, by simp, hij, hgap⟩
      obtain ⟨out, hout⟩ := h before hbefore.symm hchain' e₀ he₀
      have hcap : ((tsContext mc ro).dfl + (tsPacketBits - 1)) / tsPacketBits ≤ rxPacketCapacity := by
        rw [tsContext_dfl hmc ro]
        exact rxPacketCapacity_le mc hmc
      set r : TsRxRun := ⟨rxContext s.ts mc, out.map fun k => (p k).bytes, []⟩ with hr
      obtain ⟨out', hheard, hpackets, ret, hret, hrets⟩ := hout.heard.push hbb hej hgap hframe.symm
        s.packets hcap (show r.rx = _ from rfl) rfl
      obtain ⟨hts, new, hnew, houtput, hcount⟩ := rxDecoded_step hwrites hmodcod
        (out.map fun k => (p k).bytes) (by
          rw [← hr, hrets]
          rcases hret with rfl | rfl
          · exact .inl rfl
          · exact .inr rfl)
      rw [← hr] at hnew
      have hlen := congrArg List.length (hpackets.symm.trans hnew)
      rw [List.length_append, List.length_map, List.length_map] at hlen
      have hkBch := hheard.kBch_eq
      rw [← hts] at hkBch hheard
      refine ⟨out', ?_, ?_, .inr hkBch, ?_⟩
      · rw [houtput, hout.output, ← hnew, hpackets]
      · rw [hcount, hout.count, hlen]
      · rw [rxContext_of_eq hkBch ((Nat.zero_le _).trans_lt (modcod_geometry mc hmc).1).ne']
        exact hheard
  · refine h.of_tsSide ?_
    rw [rxResult, if_neg hzero]
    split <;> rfl

theorem rxFinish_decoded (env : RxEnv R) (s : RxMain R) :
    (rxFinish env s).2.decoded = s.decoded := by
  rw [rxFinish]
  split
  · rfl
  · dsimp only
    split
    · rfl
    · split
      · exact (writePackets_keeps env _ _).2.1
      · exact (writePackets_keeps env _ _).2.1

/-- What follows the loop hands out one packet more, if any. -/
theorem RxTracks.finish {env : RxEnv R}
    (hwrites : ∀ k, env.writeOk k = true) {received out : List ℕ} {e : ℕ} {s : RxMain R}
    (h : RxTracks mc ro p received out e s) :
    let s' := (rxFinish env s).2
    ∃ last : List ℕ, (s'.output = (out ++ last).map fun k => (p k).bytes) ∧
      (out ++ last).Pairwise (· < ·) ∧ s'.packetCount = (out ++ last).length := by
  rw [rxFinish]
  by_cases hzero : s.ts.bb.kBch = 0
  · rw [if_pos hzero]
    exact ⟨[], by simpa using h.output, by simpa using h.heard.ordered, by simpa using h.count⟩
  · rw [if_neg hzero]
    have hkBch := h.context.resolve_left hzero
    have hheard := h.heard
    rw [rxContext_of_eq hkBch (hkBch ▸ hzero)] at hheard
    obtain ⟨hret, last, hlast, hordered⟩ := hheard.finalize s.packets
    have hlen := tsRxFinalize_emits s.ts s.packets hret
    dsimp only at hlen hlast hret ⊢
    set final := tsRxFinalizeUnchecked s.ts s.packets 1
    obtain ⟨hw, houtput, -, hcount⟩ := writePackets_ok hwrites
      { s with ts := final.rx, packets := final.packets } final.packetCount
    rw [if_neg (by rw [hret]; exact lt_irrefl 0), if_neg (by rw [hw]; exact lt_irrefl 0)]
    refine ⟨last, ?_, hordered, ?_⟩
    · rw [List.map_append, ← hlast, ← h.output]
      exact houtput
    · have hlast' : final.packetCount = last.length := by rw [← hlen, hlast, List.length_map]
      rw [List.length_append, ← h.count, ← hlast']
      exact congrArg (· + final.packetCount) hcount

end Tracks

/-- **Whatever frames the demodulator misses**, the output file holds packets of the stream, in
order and none twice, and among them all that the losses do not touch: those that lie, with the
packet after, in a stretch of received frames, behind the first of them.  Gaps of up to 46 frames
show (`follows_of_few`). -/
theorem rxMain_losses {mc : Modcod} (hmc : mc ∈ vlsnrModcodTable) (ro : Byte) (p : ℕ → TsPacket)
    {env : RxEnv R} (hwrites : ∀ k, env.writeOk k = true) {options : RxOptions}
    {bbframe : List Bool} {packets : List PacketBuf} {events : List (QueueEvent R)} {ret : ℤ}
    {s : RxMain R} (hrun : rxMain env options bbframe packets events = some (ret, s))
    {received : List ℕ}
    (hreceived : s.decoded = received.map fun j => (mc, frameAt (tsContext mc ro) p j))
    (hfollows : received.IsChain (Follows (mc.kBch - bbHeaderBits))) :
    ∃ out : List ℕ, (s.output = out.map fun k => (p k).bytes) ∧ out.Pairwise (· < ·) ∧
      s.packetCount = out.length ∧ ∀ k, Covered (mc.kBch - bbHeaderBits) received k → k ∈ out := by
  rw [← tsContext_dfl hmc ro] at hfollows ⊢
  have hstart : ∀ demod : Demodulator R, RxFollows mc ro p (rxStart demod bbframe packets) := by
    intro demod received hreceived hchain e he
    obtain rfl : received = [] := List.map_eq_nil_iff.mp hreceived.symm
    refine ⟨[], rfl, rfl, .inl rfl, ?_⟩
    rw [rxContext_of_zero rfl]
    exact heard_fresh p e fun s =>
      (rxAt_iff_over p s 0 _).mpr (rxOverAt_fresh ro (streamFrom p s) (.inl rfl))
  have hloop := fun (demod : Demodulator R) (flow : RxFlow R)
      (hflow : rxLoop env options (rxStart demod bbframe packets) events = some flow) =>
    rxLoop_keeps (fun s samples h => h.of_tsSide (rxCall_tsSide env s samples))
      (fun s dret h => h.result hmc hwrites dret) (fun s h => h.of_tsSide rfl) (hstart demod) hflow
  -- where the tool stops
  obtain ⟨v, hv, hs⟩ : ∃ v, RxFollows mc ro p v ∧ (s = v ∨ s = (rxFinish env v).2) := by
    rw [rxMain] at hrun
    split at hrun
    · exact ⟨_, hstart _, .inl (congrArg Prod.snd (Option.some.inj hrun)).symm⟩
    · dsimp only at hrun
      split at hrun
      · exact ⟨_, hstart _, .inl (congrArg Prod.snd (Option.some.inj hrun)).symm⟩
      · split at hrun
        · cases hrun
        · cases hrun
        · next s' hflow =>
          exact ⟨_, hloop _ _ hflow, .inr (congrArg Prod.snd (Option.some.inj hrun)).symm⟩
        · next s' hflow =>
          exact ⟨_, hloop _ _ hflow, .inl (congrArg Prod.snd (Option.some.inj hrun)).symm⟩
  obtain ⟨e, he⟩ : ∃ e, ∀ i ∈ received.getLast?, e = i + 1 := by
    cases received.getLast? with
    | none => exact ⟨0, by simp⟩
    | some i => exact ⟨i + 1, by simp⟩
  rcases hs with rfl | rfl
  · obtain ⟨out, hout⟩ := hv received hreceived hfollows e he
    exact ⟨out, hout.output, hout.heard.ordered, hout.count, hout.heard.complete⟩
  · rw [rxFinish_decoded] at hreceived
    obtain ⟨out, hout⟩ := hv received hreceived hfollows e he
    obtain ⟨last, houtput, hordered, hcount⟩ := hout.finish hwrites
    exact ⟨out ++ last, houtput, hordered, hcount, fun k hk =>
      List.mem_append_left _ (hout.heard.complete k hk)⟩

/-! ### A stream with a lost frame -/

/-- What a call hands out that receives a frame. -/
theorem demodulateStream_output {rx : RxStages R} {demod : Demodulator R} {input : List (Cplx R)}
    {capacity : ℕ} {mc : Modcod} {bits : List Bool} (output : List Bool)
    (hfew : demod.streamBuf.length + input.length ≤ uintMax - demod.numTaps)
    (hwaits : streamWaits (streamAppend demod input) = false)
    (hcontent : frameContent rx (streamAppend demod input)
      (streamSymbols rx (streamAppend demod input)) 0 = some (mc, bits))
    (hroom : mc.kBch ≤ capacity) :
    (demodulateStream rx demod input output capacity true).output = memcpyAt output 0 bits := by
  have hbuf : (streamAppend demod input).streamBuf.length = demod.streamBuf.length + input.length := by
    rw [streamAppend_streamBuf, List.length_append]
  have htaps : (streamAppend demod input).numTaps = demod.numTaps := by
    obtain ⟨streamCap, happ⟩ := streamAppend_eq demod input
    rw [happ]
  have hcall := demodulateBbframeSymbols_outcome rx (streamAppend demod input)
    (streamSymbols rx (streamAppend demod input)) 0 output capacity
  rw [demodulateStream, if_neg (by omega)]
  dsimp only
  rw [hwaits, if_neg Bool.false_ne_true, if_neg (by rw [hbuf, htaps]; omega), decodeBurst_eq,
    decodeSymbols, if_pos rfl]
  rw [show rx.frontEnd _ _ (decodeBuf (streamAppend demod input)) = streamSymbols rx _ from rfl]
  generalize demodulateBbframeSymbols rx (streamAppend demod input)
    (streamSymbols rx (streamAppend demod input)) 0 output capacity = call at hcall ⊢
  have hout : call.output = memcpyAt output 0 bits := by
    cases hcall with
    | invalid hnoise => exact absurd hnoise (lt_irrefl 0)
    | unheard hdet =>
      rw [frameContent_of_undetected 0 hdet] at hcontent
      cases hcontent
    | incomplete hdet hfits =>
      rw [frameContent_of_incomplete hdet hfits] at hcontent
      cases hcontent
    | failed hdet hfits hdec hbits =>
      rw [frameContent_of_error hdet hbits] at hcontent
      cases hcontent
    | full hdet hfits hdec hbits hcap =>
      rw [frameContent_of_ok hdet hfits hbits] at hcontent
      obtain ⟨rfl, -⟩ := Prod.mk.inj (Option.some.inj hcontent)
      exact absurd hroom (Nat.not_le.mpr hcap)
    | delivered hdet hfits hdec hbits =>
      rw [frameContent_of_ok hdet hfits hbits] at hcontent
      obtain ⟨-, rfl⟩ := Prod.mk.inj (Option.some.inj hcontent)
      rfl
  split <;> exact hout

end

/-- Stages that hear a frame with the BBFRAME `bits`. -/
def frameStages (bits : List Bool) : RxStages ℚ :=
  { scriptedStages (fixedSync (plheaderLen + 2) 9) 0 with bch := fun _ _ => (0, bits) }

/-- A demodulator with the samples `buf` of a frame, whose header it does not predict elsewhere. -/
structure AtFrameStart (demod : Demodulator ℚ) (buf : List (Cplx ℚ)) : Prop where
  sps : demod.sps = 2
  numTaps : demod.numTaps = 65
  cancelRequested : demod.cancelRequested = false
  expectedFrameLen : demod.expectedFrameLen ≤ vlsnrFrameShort
  predictedWhStart : demod.tracking = true → demod.predictedWhStart = plheaderLen + 2
  streamBuf : demod.streamBuf = buf

section
variable {demod : Demodulator ℚ} {buf : List (Cplx ℚ)}

theorem AtFrameStart.append (h : AtFrameStart demod []) (input : List (Cplx ℚ)) :
    AtFrameStart (streamAppend demod input) input := by
  obtain ⟨streamCap, happ⟩ := streamAppend_eq demod input
  rw [h.streamBuf, List.nil_append] at happ
  rw [happ]
  exact ⟨h.sps, h.numTaps, h.cancelRequested, h.expectedFrameLen, h.predictedWhStart, rfl⟩

/-- The header is found, predicted or not. -/
theorem AtFrameStart.sync (h : AtFrameStart demod buf) (bits : List Bool) (work : List (Cplx ℚ))
    (inLen : ℕ) : headerSearch (frameStages bits) demod work inLen = ⟨1, plheaderLen + 2, 9⟩ := by
  unfold headerSearch
  by_cases htracking : demod.tracking = true
  · have hbase : trackBase demod = 0 := by
      unfold trackBase
      rw [h.predictedWhStart htracking]
      decide
    have hsync : trackSearch (frameStages bits) demod work inLen
        = ⟨1, (plheaderLen + 2 + trackBase demod) % 2 ^ 32, 9⟩ := rfl
    rw [if_pos htracking, hsync, hbase]
    exact if_neg (by norm_num)
  · rw [if_neg htracking]
    rfl

/-- An empty call waits. -/
theorem AtFrameStart.wait (h : AtFrameStart demod []) (rx : RxStages ℚ) (bbframe : List Bool) :
    let call := demodulateStream rx demod [] bbframe ldpcNormal true
    call.ret = errShort ∧ call.output = bbframe ∧ AtFrameStart call.demod [] := by
  have hnext := h.append []
  have hwaits : streamWaits (streamAppend demod []) = true := by
    unfold streamWaits
    rw [hnext.streamBuf, hnext.sps]
    rfl
  rw [demodulateStream_waits rx (Nat.zero_le _) hwaits]
  exact ⟨rfl, rfl, hnext⟩

theorem AtFrameStart.detected (h : AtFrameStart demod buf) (bits : List Bool) {mc : Modcod}
    (hrow : vlsnrGetModcod 9 = some mc) {input : List (Cplx ℚ)}
    (hlen : plheaderLen + vlsnrWhLen ≤ input.length) :
    OpenVlsnr.detected (frameStages bits) demod input = some (mc, ⟨1, plheaderLen + 2, 9⟩) := by
  unfold OpenVlsnr.detected
  rw [if_neg (by rw [h.cancelRequested]; exact not_or.mpr ⟨Bool.false_ne_true, Nat.not_lt.mpr hlen⟩),
    h.sync]
  dsimp only
  rw [if_neg (by norm_num), hrow]
  rfl

/-- The frame is removed as it is delivered. -/
theorem AtFrameStart.delivered (h : AtFrameStart demod buf) (hbuf : buf.length = 33372)
    {mc : Modcod} (hshort : frameLenOf mc = 16686) (afc : Afc ℚ) (dec : LdpcDecoder)
    (stats : DemodStats ℚ) (state : DemodState) :
    AtFrameStart ((demod.received mc ⟨1, plheaderLen + 2, 9⟩ afc dec false stats).delivered mc state)
      [] := by
  have hremoved : removeSamples 2 33372 (16686 * 2) = 33372 := by decide
  refine ⟨h.sps, h.numTaps, rfl, hshort.le, fun _ => rfl, ?_⟩
  dsimp only [Demodulator.delivered, Demodulator.received, Demodulator.predict]
  rw [h.streamBuf, h.sps, hshort, hbuf, hremoved]
  exact List.drop_of_length_le hbuf.le

/-- The frame decodes to `bits`. -/
theorem AtFrameStart.content (h : AtFrameStart demod buf) (bits : List Bool) {mc : Modcod}
    (hrow : vlsnrGetModcod 9 = some mc) (hshort : frameLenOf mc = 16686) {input : List (Cplx ℚ)}
    (hinput : input.length = 16718) :
    frameContent (frameStages bits) demod input 0 = some (mc, bits.take mc.kBch) := by
  have hmc := vlsnrGetModcod_mem hrow
  have hheader : plheaderLen + vlsnrWhLen ≤ input.length := by
    rw [hinput]
    decide
  have hfits : frameFits mc (⟨1, plheaderLen + 2, 9⟩ : HeaderSync ℚ) input.length := by
    refine frameFits_fixed hmc (by decide) ?_
    rw [hinput, hshort]
    decide
  refine frameContent_of_ok (h.detected bits hrow hheader) hfits ?_
  obtain ⟨dec, hdec⟩ := frameDecoder_isSome demod.ldpcDec hmc
  unfold frameBits frameFec
  rw [hdec]
  exact (if_neg fun hcancel => absurd hcancel.1 (lt_irrefl 0)).trans (if_neg (lt_irrefl 0))

/-- **A block that is a frame**: it is received, and the buffer is empty again. -/
theorem AtFrameStart.frame (h : AtFrameStart demod []) (bits : List Bool) {mc : Modcod}
    (hrow : vlsnrGetModcod 9 = some mc) (hshort : frameLenOf mc = 16686)
    (hbuf : buf.length = 33372) (bbframe : List Bool) :
    let call := demodulateStream (frameStages bits) demod buf bbframe ldpcNormal true
    call.ret = ok ∧ call.demod.modcod = some mc ∧
      call.output = memcpyAt bbframe 0 (bits.take mc.kBch) ∧ AtFrameStart call.demod [] := by
  intro call
  have hmc := vlsnrGetModcod_mem hrow
  have hnext := h.append buf
  generalize hinput : streamSymbols (frameStages bits) (streamAppend demod buf) = input
  have hsymbols : input.length = 16718 := by
    rw [← hinput]
    show (streamSymbols (scriptedStages (fixedSync (plheaderLen + 2) 9) 0) _).length = _
    rw [streamSymbols_scripted_length, hnext.streamBuf, hnext.numTaps, hnext.sps, hbuf]
  have hdet := hnext.detected bits hrow (show plheaderLen + vlsnrWhLen ≤ input.length by
    rw [hsymbols]
    decide)
  have hcontent := hnext.content bits hrow hshort hsymbols
  rw [← hinput] at hcontent
  have hfew : demod.streamBuf.length + buf.length ≤ uintMax - demod.numTaps := by
    rw [h.streamBuf, h.numTaps, hbuf]
    decide
  have hwaits : streamWaits (streamAppend demod buf) = false := by
    have hexpected : (streamAppend demod buf).expectedFrameLen ≤ 16686 := hnext.expectedFrameLen
    unfold streamWaits
    rw [hnext.streamBuf, hnext.sps, hbuf]
    refine Bool.or_eq_false_iff.mpr ⟨decide_eq_false (by decide), ?_⟩
    exact Bool.and_eq_false_iff.mpr (Or.inr (decide_eq_false (by omega)))
  have hroom := (modcod_geometry mc hmc).2.1
  have hret := demodulateStream_ret_ok bbframe hfew hwaits hcontent hroom
  have houtput := demodulateStream_output bbframe hfew hwaits hcontent hroom
  -- what the call leaves behind
  obtain ⟨mc', sync, dec, stats, state, hdet', -, -, hafter⟩ := demodulateStream_of_ok _ _ _ _ _ hret
  rw [hinput] at hdet'
  obtain rfl : mc' = mc := congrArg Prod.fst (Option.some.inj (hdet'.symm.trans hdet))
  obtain rfl : sync = _ := congrArg Prod.snd (Option.some.inj (hdet'.symm.trans hdet))
  have hcancel : cancelAfter (frameStages bits) (streamAppend demod buf) = false := by
    unfold cancelAfter
    rw [hnext.cancelRequested]
    rfl
  rw [hcancel] at hafter
  have hmodcod : call.demod.modcod = some mc' := by
    rw [show call.demod = _ from hafter]
    rfl
  refine ⟨hret, hmodcod, houtput, ?_⟩
  rw [show call.demod = _ from hafter]
  exact hnext.delivered hbuf hshort _ dec stats state

end

/-- The environment of a stream of frames: what they decode to, call by call; every second call is
the empty one. -/
def frameEnv (frames : List (List Bool)) : RxEnv ℚ :=
  ⟨fun k => frameStages (frames.getD (k / 2) []), fun _ => false, fun _ => true⟩

/-- The tool between two blocks. -/
structure ToolAt (s : RxMain ℚ) (j : ℕ) : Prop where
  demod : AtFrameStart s.demod []
  calls : s.calls = 2 * j
  stopRequested : s.stopRequested = false

theorem frameEnv_stages (frames : List (List Bool)) (j : ℕ) :
    (frameEnv frames).stages (2 * j) = frameStages (frames.getD j []) := by
  show frameStages (frames.getD (2 * j / 2) []) = _
  rw [Nat.mul_div_cancel_left j (by decide)]

/-- A call that the handler does not run before. -/
theorem rxCall_quiet {env : RxEnv ℚ} {s : RxMain ℚ} (hquiet : env.signal s.calls = false)
    (samples : List (Cplx ℚ)) :
    let call := demodulateStream (env.stages s.calls) s.demod samples s.bbframe ldpcNormal true
    rxCall env s samples = (call.ret,
      { s with demod := call.demod, bbframe := call.output, calls := s.calls + 1 }) := by
  rw [rxCall, rxSignal, if_neg (by rw [hquiet]; exact Bool.false_ne_true)]

/-- **One block**: a call that receives the frame, and one that waits. -/
theorem ToolAt.block {s : RxMain ℚ} {j : ℕ} (h : ToolAt s j) (frames : List (List Bool))
    {mc : Modcod} (hrow : vlsnrGetModcod 9 = some mc) (hshort : frameLenOf mc = 16686)
    {chunk : List (Cplx ℚ)} (hchunk : chunk.length = 33372)
    (hlen : (frames.getD j []).length = mc.kBch) :
    ∃ s', rxBlock (frameEnv frames) ⟨2, 0, 12⟩ s chunk = some (.ok s') ∧ ToolAt s' (j + 1) ∧
      s'.decoded = s.decoded ++ [(mc, frames.getD j [])] := by
  have hcall := h.demod.frame (frames.getD j []) hrow hshort hchunk s.bbframe
  rw [← frameEnv_stages, ← h.calls] at hcall
  obtain ⟨call, hfirst, hret, hmodcod, houtput, hdemod⟩ : ∃ call : StreamCall ℚ,
      rxCall (frameEnv frames) s chunk = (call.ret,
        { s with demod := call.demod, bbframe := call.output, calls := s.calls + 1 }) ∧
      call.ret = ok ∧ call.demod.modcod = some mc ∧
      call.output = memcpyAt s.bbframe 0 ((frames.getD j []).take mc.kBch) ∧
      AtFrameStart call.demod [] := ⟨_, rxCall_quiet rfl chunk, hcall⟩
  generalize hs₀ : { s with demod := call.demod, bbframe := call.output, calls := s.calls + 1 } = s₀
    at hfirst
  have hframe : s₀.bbframe.take mc.kBch = frames.getD j [] := by
    rw [← hs₀]
    dsimp only
    rw [houtput, memcpyAt, List.take_zero, List.nil_append, List.take_of_length_le hlen.le,
      ← hlen, List.take_left]
  have hmodcod₀ : s₀.demod.modcod = some mc := by rw [← hs₀, hmodcod]
  -- the frame goes to the TS side
  obtain ⟨hkept, hdecoded, hcalls, hstop⟩ := rxDecoded_keeps (frameEnv frames) s₀
  obtain ⟨s₁, hs₁⟩ : ∃ s₁, rxDecoded (frameEnv frames) s₀ = .ok s₁ := by
    rw [rxDecoded, hmodcod₀]
    dsimp only
    split <;> exact ⟨_, rfl⟩
  rw [hs₁] at hkept hdecoded hcalls hstop
  rw [hmodcod₀, Option.map_some, Option.toList_some, hframe, ← hs₀] at hdecoded
  -- the next call waits
  have hdemod₁ : AtFrameStart s₁.demod [] := by
    rw [show s₁.demod = s₀.demod from hkept, ← hs₀]
    exact hdemod
  obtain ⟨call', hsecond, hret', -, hdemod'⟩ : ∃ call' : StreamCall ℚ,
      rxCall (frameEnv frames) s₁ [] = (call'.ret,
        { s₁ with demod := call'.demod, bbframe := call'.output, calls := s₁.calls + 1 }) ∧
      call'.ret = errShort ∧ call'.output = s₁.bbframe ∧ AtFrameStart call'.demod [] :=
    ⟨_, rxCall_quiet rfl [], hdemod₁.wait _ _⟩
  have hblock : rxBlock (frameEnv frames) ⟨2, 0, 12⟩ s chunk
      = some (.ok (rxCall (frameEnv frames) s₁ []).2) :=
    rxBlock_received rfl (by rw [hfirst, hret]) (by rw [hfirst, hs₁]) (by rw [hsecond, hret'])
  rw [hsecond] at hblock
  refine ⟨_, hblock, ⟨hdemod', ?_, ?_⟩, hdecoded⟩
  · show s₁.calls + 1 = 2 * (j + 1)
    rw [show s₁.calls = s₀.calls from hcalls, ← hs₀, h.calls]
    ring
  · rw [show s₁.stopRequested = s₀.stopRequested from hstop, ← hs₀]
    exact h.stopRequested

/-- **A stream of frames.** -/
theorem ToolAt.run (frames : List (List Bool)) {mc : Modcod} (hrow : vlsnrGetModcod 9 = some mc)
    (hshort : frameLenOf mc = 16686) (hlen : ∀ bits ∈ frames, bits.length = mc.kBch)
    {chunk : List (Cplx ℚ)} (hchunk : chunk.length = 33372) {s : RxMain ℚ} {j : ℕ} (h : ToolAt s j)
    {n : ℕ} (hn : j + n = frames.length) :
    ∃ s', rxLoop (frameEnv frames) ⟨2, 0, 12⟩ s
        (List.replicate n (.block chunk) ++ [.endOfStream]) = some (.done s') ∧
      s'.decoded = s.decoded ++ (frames.drop j).map fun bits => (mc, bits) := by
  induction n generalizing s j with
  | zero =>
    refine ⟨s, ?_, ?_⟩
    · rw [List.replicate_zero, List.nil_append]
      exact rxLoop_endOfStream _ _ h.stopRequested []
    · rw [List.drop_of_length_le (by omega), List.map_nil, List.append_nil]
  | succ n ih =>
    have hj : j < frames.length := by omega
    have hget : frames.getD j [] = frames[j] := List.getD_eq_getElem _ _ hj
    obtain ⟨s₁, hblock, hnext, hdecoded⟩ := h.block frames hrow hshort hchunk
      (hget ▸ hlen _ (List.getElem_mem hj))
    obtain ⟨s', hloop, hrest⟩ := ih hnext (by omega)
    refine ⟨s', ?_, ?_⟩
    · rw [List.replicate_succ, List.cons_append, rxLoop_block h.stopRequested hblock]
      exact hloop
    · rw [hrest, hdecoded, hget, List.drop_eq_getElem_cons hj, List.map_cons, List.append_assoc]
      rfl

/-- The tool behind it. -/
theorem frameEnv_main (frames : List (List Bool)) {mc : Modcod} (hrow : vlsnrGetModcod 9 = some mc)
    (hshort : frameLenOf mc = 16686) (hlen : ∀ bits ∈ frames, bits.length = mc.kBch)
    {chunk : List (Cplx ℚ)} (hchunk : chunk.length = 33372) :
    ∃ ret s, rxMain (frameEnv frames) ⟨2, 0, 12⟩ [] []
        (List.replicate frames.length (.block chunk) ++ [.endOfStream]) = some (ret, s) ∧
      s.decoded = frames.map fun bits => (mc, bits) := by
  set tool : Demodulator ℚ := { freshDemodulator (7 / 20) 2 0 with maxLdpcIterations := 12 }
  have hinit : demodulatorInit (7 / 20 : ℚ) 2 0 = .ok (freshDemodulator (7 / 20) 2 0) := by
    rw [demodulatorInit, if_neg (by norm_num), if_neg (by decide)]
  have hlimit : demodulatorSetMaxLdpcIterations (freshDemodulator (7 / 20 : ℚ) 2 0) 12
      = (ok, tool) := rfl
  have hstart : ToolAt (rxStart tool [] []) 0 :=
    ⟨⟨rfl, rfl, rfl, Nat.zero_le _, fun htracking => absurd htracking Bool.false_ne_true, rfl⟩, rfl,
      rfl⟩
  obtain ⟨s, hloop, hdecoded⟩ := hstart.run frames hrow hshort hlen hchunk (Nat.zero_add _)
  refine ⟨(rxFinish (frameEnv frames) s).1, (rxFinish (frameEnv frames) s).2, ?_, ?_⟩
  · rw [rxMain, hinit]
    dsimp only
    rw [hlimit]
    dsimp only
    rw [if_neg (lt_irrefl 0), hloop]
  · rw [rxFinish_decoded, hdecoded]
    exact List.nil_append _

/-- The frames 0, 2 and 3 of a stream: packet 11 lies in frames 2 and 3, behind the gap, and it is
written. -/
theorem rxMain_losses_gap :
    let mc := vlsnrModcodTable[8]
    let p : ℕ → TsPacket := fun _ => default
    let received := [0, 2, 3]
    ∃ ret s, rxMain (frameEnv (received.map (frameAt (tsContext mc 0) p))) ⟨2, 0, 12⟩ [] []
        (List.replicate 3 (.block (List.replicate 33372 0)) ++ [.endOfStream]) = some (ret, s) ∧
      ∃ out : List ℕ, (s.output = out.map fun k => (p k).bytes) ∧ out.Pairwise (· < ·) ∧
        s.packetCount = out.length ∧ 11 ∈ out := by
  intro mc p received
  have hmc : mc ∈ vlsnrModcodTable := List.getElem_mem _
  have hrow : vlsnrGetModcod 9 = some mc := rfl
  have hshort : frameLenOf mc = 16686 := frameLenOf_eq hmc
  have hlen : ∀ bits ∈ received.map (frameAt (tsContext mc 0) p), bits.length = mc.kBch := by
    intro bits hbits
    obtain ⟨j, -, rfl⟩ := List.mem_map.mp hbits
    exact frameAt_length (tsContext_valid hmc 0) p j
  obtain ⟨ret, s, hrun, hdecoded⟩ := frameEnv_main _ hrow hshort hlen List.length_replicate
  rw [List.map_map] at hdecoded
  have hd : mc.kBch - bbHeaderBits = 5152 := rfl
  have hfollows : received.IsChain (Follows (mc.kBch - bbHeaderBits)) := by
    rw [hd]
    simp [received, Follows, tsPacketBits]
  obtain ⟨out, houtput, hordered, hcount, hcovered⟩ :=
    rxMain_losses hmc 0 p (fun _ => rfl) hrun hdecoded hfollows
  refine ⟨ret, s, hrun, out, houtput, hordered, hcount, hcovered 11 ⟨2, 3, fun j hlow hhigh => ?_, ?_⟩⟩
  · obtain rfl | rfl : j = 2 ∨ j = 3 := by omega
    · decide
    · decide
  · rw [hd]
    decide

end OpenVlsnr
