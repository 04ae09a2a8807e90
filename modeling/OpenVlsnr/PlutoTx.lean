import OpenVlsnr.TsRoundTrip

/-!
# The transmitter tool (`openvlsnr-pluto-tx.c`)

`main` reads TS packets until the end of the file, sends every frame `dvbs2x_ts_tx_push`
emits, and at the end pads with null packets to push out the bits still pending.  The results
of `fread`, `fseek` and `send_frame` are the environment (`ReadEvent`, `TxEnv`); `sent` records
every frame handed to `send_frame`.

The flush loop tests `frame_len`, which the read loop has left behind: if the last packet read
completed a frame, the loop body never runs and the old frame goes out a second time.
`txMain_sends_stream_iff` says exactly for which packet counts that happens.
-/

namespace OpenVlsnr

/-! ### The tool -/

/-- `make_null_packet`. -/
def makeNullPacket : PacketBuf :=
  ((((Vector.replicate tsPacketSize 0xff).set 0 0x47 tsPacketSize_pos).set 1 0x1f).set 2 0xff).set
    3 0x10

/-- The options that steer the loop. -/
structure TxOptions where
  modcod : ℕ
  repeatInput : Bool

/-- What one `fread` of a packet does. -/
inductive ReadEvent where
  | packet (bytes : PacketBuf)
  | eof
  | error

/-- Whether the `k`-th call of `send_frame` succeeds, and whether the input can be rewound. -/
structure TxEnv where
  sendOk : ℕ → Bool
  seekOk : Bool

/-- The variables of `main`. -/
structure TxMain where
  ts : TsTx
  bbframe : List Bool
  frameLen : ℕ
  packetCount : ℕ
  frameCount : ℕ
  passPackets : ℕ
  sent : List (List Bool)

/-- Where control is: in the loop, past it, or at the label `out` with `ret = 1`. -/
inductive TxFlow where
  | running (s : TxMain)
  | atEof (s : TxMain)
  | out (s : TxMain)

/-- `send_frame` on `bbframe`, of which the modulator reads `k_bch` entries. -/
def sendFrame (env : TxEnv) (s : TxMain) : TxFlow :=
  let s' := { s with sent := s.sent ++ [s.bbframe.take s.ts.bb.kBch] }
  if env.sendOk s.sent.length then .running { s' with frameCount := s.frameCount + 1 }
  else .out s'

/-- `dvbs2x_ts_tx_push` on the variables of `main`. -/
def pushPacket (kBch : ℕ) (s : TxMain) (bytes : PacketBuf) : ℤ × TxMain :=
  let r := tsTxPush s.ts bytes s.bbframe kBch
  (r.1, { s with ts := r.2.tx, bbframe := r.2.bbframe, frameLen := r.2.frameLen })

/-- One pass through the read loop. -/
def txReadStep (env : TxEnv) (options : TxOptions) (kBch : ℕ) (s : TxMain) : ReadEvent → TxFlow
  | .error => .out s
  | .eof =>
      if options.repeatInput = false then .atEof s
      else if s.passPackets = 0 ∨ env.seekOk = false then .out s
      else .running { s with passPackets := 0 }
  | .packet bytes =>
      if bytes.get ⟨0, tsPacketSize_pos⟩ ≠ 0x47 then .out s
      else
        let r := pushPacket kBch s bytes
        if r.1 < 0 then .out r.2
        else
          let s : TxMain := { r.2 with
            packetCount := r.2.packetCount + 1
            passPackets := r.2.passPackets + 1 }
          if s.frameLen = 0 then .running s else sendFrame env s

/-- The read loop over the results of the successive reads. -/
def txReadLoop (env : TxEnv) (options : TxOptions) (kBch : ℕ) (s : TxMain) :
    List ReadEvent → TxFlow
  | [] => .running s
  | ev :: evs =>
      match txReadStep env options kBch s ev with
      | .running s' => txReadLoop env options kBch s' evs
      | .atEof s' => .atEof s'
      | .out s' => .out s'

/-- `while (!frame_len)` push a null packet. -/
def txFlushLoop (kBch : ℕ) : ℕ → TxMain → Option TxFlow
  | 0, _ => none
  | fuel + 1, s =>
      if s.frameLen ≠ 0 then some (.running s)
      else
        let r := pushPacket kBch s makeNullPacket
        if r.1 < 0 then some (.out r.2) else txFlushLoop kBch fuel r.2

/-- What follows the read loop.  A push that emits nothing adds 1504 pending bits, so `kBch`
passes are more than the flush loop can make. -/
def txFlush (env : TxEnv) (kBch : ℕ) (s : TxMain) : Option (ℤ × TxMain) :=
  if s.ts.dataLen = 0 then some (0, s)
  else
    match txFlushLoop kBch kBch s with
    | none => none
    | some (.running s') =>
        match sendFrame env s' with
        | .running s'' => some (0, s'')
        | .atEof s'' | .out s'' => some (1, s'')
    | some (.atEof s') | some (.out s') => some (1, s')

/-- `main` from the set-up of the transmitter on, with `buf` the fresh frame buffer: its exit
code and final variables, or `none` while it is still reading. -/
def txMain (env : TxEnv) (options : TxOptions) (buf : List Bool) (events : List ReadEvent) :
    Option (ℤ × TxMain) :=
  match vlsnrGetModcod options.modcod with
  | none => none
  | some mc =>
    match tsTxInit mc 0 with
    | .error _ => none
    | .ok ts =>
      match txReadLoop env options mc.kBch ⟨ts, buf, 0, 0, 0, 0, []⟩ events with
      | .running _ => none
      | .out s => some (1, s)
      | .atEof s => txFlush env mc.kBch s

/-! ### What the tool is for -/

/-- The reads of an input that holds the packets `ps`. -/
def inputEvents (ps : List TsPacket) : List ReadEvent :=
  ps.map (fun q => .packet q.bytes) ++ [.eof]

theorem makeNullPacket_sync : makeNullPacket[0] = 0x47 := by decide

/-- The null packet as a packet of the stream. -/
def nullPacket : TsPacket := ⟨makeNullPacket, makeNullPacket_sync⟩

/-- The transmitter run on the input packets followed by `m` null packets. -/
def paddedRun (mc : Modcod) (buf : List Bool) (ps : List TsPacket) (m : ℕ) : TsTxRun :=
  tsTxRun mc.kBch ⟨tsContext mc 0, [], 0, 0⟩ buf
    ((ps ++ List.replicate m nullPacket).map TsPacket.bytes)

/-- The frames that have to go out for the packets `ps`: those emitted for the packets
themselves and, if bits are still pending, null packets up to the first that emits a frame. -/
def SendsStream (mc : Modcod) (buf : List Bool) (ps : List TsPacket) (sent : List (List Bool)) :
    Prop :=
  if (paddedRun mc buf ps 0).tx.dataLen = 0 then sent = (paddedRun mc buf ps 0).frames
  else ∃ m, IsLeast {m | (paddedRun mc buf ps 0).frames.length
      < (paddedRun mc buf ps m).frames.length} m ∧ sent = (paddedRun mc buf ps m).frames

/-- A fresh receiver accepts the frames and, finalized, has recovered the packets `ps` (and
possibly null packets after them). -/
def Recovers (mc : Modcod) (ps : List TsPacket) (sent : List (List Bool)) : Prop :=
  let r := tsRxRun [] tsMaxPacketsPerFrame (tsRxInit mc) sent
  let q := tsRxFinalizeUnchecked r.rx [] 1
  (∀ ret ∈ r.rets, ret = ok) ∧ q.ret = ok ∧
    ps.map TsPacket.bytes <+: r.packets ++ q.packets.take q.packetCount

/-! ### The read loop -/

/-- The variables of `main` once `n` packets of the stream have been read. -/
structure TxMainAt (bb : BbFrameCtx) (p : ℕ → TsPacket) (n : ℕ) (s : TxMain) : Prop where
  ts_eq : s.ts = txAfter bb p n
  sent_eq : s.sent = (List.range (n * tsPacketBits / bb.dfl)).map (frameAt bb p)
  frame : if (n - 1) * tsPacketBits / bb.dfl = n * tsPacketBits / bb.dfl then s.frameLen = 0
    else s.frameLen = bb.kBch ∧
      s.bbframe.take bb.kBch = frameAt bb p ((n - 1) * tsPacketBits / bb.dfl)

/-- Pushing the next packet of the stream. -/
theorem pushPacket_spec {bb : BbFrameCtx} (hbb : bb.Valid) (p : ℕ → TsPacket) (n : ℕ)
    (s : TxMain) (hs : s.ts = txAfter bb p n) :
    ∃ s', pushPacket bb.kBch s (p n).bytes = (ok, s') ∧ s'.ts = txAfter bb p (n + 1) ∧
      s'.sent = s.sent ∧
      FrameOut bb p s.bbframe (n * tsPacketBits) ((n + 1) * tsPacketBits) s'.bbframe
        s'.frameLen := by
  obtain ⟨hret, htx, hout⟩ := tsTxPush_spec hbb p n s.bbframe bb.kBch le_rfl
  refine ⟨(pushPacket bb.kBch s (p n).bytes).2, ?_, ?_, rfl, ?_⟩
  · exact Prod.ext (by rw [pushPacket, hs]; exact hret) rfl
  · rw [pushPacket, hs]
    exact htx
  · rw [pushPacket, hs]
    exact hout

/-- Reading one packet keeps the invariant. -/
theorem txReadStep_packet {bb : BbFrameCtx} (hbb : bb.Valid) (p : ℕ → TsPacket) (env : TxEnv)
    (hsend : ∀ k, env.sendOk k = true) (options : TxOptions) (n : ℕ) (s : TxMain)
    (hs : TxMainAt bb p n s) :
    ∃ s', txReadStep env options bb.kBch s (.packet (p n).bytes) = .running s' ∧
      TxMainAt bb p (n + 1) s' := by
  obtain ⟨t, hpush, hts, hsent, hout⟩ := pushPacket_spec hbb p n s hs.ts_eq
  have hk : bb.kBch ≠ 0 := by simp [hbb.kBch_eq]
  have hts' : t.ts.bb.kBch = bb.kBch := by
    rw [hts]
    rfl
  have hsync : (p n).bytes.get ⟨0, tsPacketSize_pos⟩ = 0x47 := (p n).sync
  unfold txReadStep
  dsimp only
  rw [if_neg (not_not.mpr hsync), hpush]
  dsimp only
  rw [if_neg (by decide)]
  rw [FrameOut] at hout
  by_cases hsame : n * tsPacketBits / bb.dfl = (n + 1) * tsPacketBits / bb.dfl
  · rw [if_pos hsame] at hout
    rw [if_pos hout.2]
    refine ⟨_, rfl, hts, ?_, ?_⟩
    · exact hsent.trans (by rw [hs.sent_eq, hsame])
    · rw [Nat.add_sub_cancel, if_pos hsame]
      exact hout.2
  · rw [if_neg hsame] at hout
    have hnext := (push_crosses hbb.packet_lt n).resolve_left fun h => hsame h.symm
    rw [if_neg (by rw [hout.2]; exact hk), sendFrame]
    dsimp only
    rw [if_pos (hsend _)]
    refine ⟨_, rfl, hts, ?_, ?_⟩
    · dsimp only
      rw [hsent, hs.sent_eq, hts', hout.1, hnext, List.range_succ, List.map_append,
        List.map_singleton]
    · rw [Nat.add_sub_cancel, if_neg hsame]
      exact ⟨hout.2, hout.1⟩

theorem txReadLoop_append (env : TxEnv) (options : TxOptions) (kBch : ℕ) (s s' : TxMain)
    (evs rest : List ReadEvent) (h : txReadLoop env options kBch s evs = .running s') :
    txReadLoop env options kBch s (evs ++ rest) = txReadLoop env options kBch s' rest := by
  induction evs generalizing s with
  | nil =>
    rw [txReadLoop] at h
    cases h
    rfl
  | cons ev evs ih =>
    rw [txReadLoop] at h
    rw [List.cons_append, txReadLoop]
    cases hstep : txReadStep env options kBch s ev with
    | running t =>
      rw [hstep] at h
      exact ih t h
    | atEof t =>
      rw [hstep] at h
      cases h
    | out t =>
      rw [hstep] at h
      cases h

/-- **The read loop** over `n` packets, by induction on `n`. -/
theorem txReadLoop_packets {bb : BbFrameCtx} (hbb : bb.Valid) (p : ℕ → TsPacket) (env : TxEnv)
    (hsend : ∀ k, env.sendOk k = true) (options : TxOptions) (s : TxMain)
    (hs : TxMainAt bb p 0 s) (n : ℕ) :
    ∃ s', txReadLoop env options bb.kBch s
        ((List.range n).map fun k => .packet (p k).bytes) = .running s' ∧
      TxMainAt bb p n s' := by
  induction n with
  | zero => exact ⟨s, rfl, hs⟩
  | succ n ih =>
    obtain ⟨t, hrun, ht⟩ := ih
    obtain ⟨t', hstep, ht'⟩ := txReadStep_packet hbb p env hsend options n t ht
    refine ⟨t', ?_, ht'⟩
    rw [List.range_succ, List.map_append, List.map_singleton,
      txReadLoop_append env options bb.kBch s t _ _ hrun, txReadLoop, hstep]
    rfl

/-! ### The flush -/

/-- The flush loop, entered with `frame_len = 0`, pushes null packets up to the first that
completes frame `K`.  Induction on the passes still allowed. -/
theorem txFlushLoop_spec {bb : BbFrameCtx} (hbb : bb.Valid) (p : ℕ → TsPacket) (K fuel : ℕ) :
    ∀ (n : ℕ) (s : TxMain), s.ts = txAfter bb p n → s.frameLen = 0 →
      (∀ k, n ≤ k → p k = nullPacket) → n * tsPacketBits / bb.dfl = K →
      (K + 1) * bb.dfl ≤ (n + fuel) * tsPacketBits →
      ∃ m s', txFlushLoop bb.kBch (fuel + 1) s = some (.running s') ∧
        s'.ts = txAfter bb p (n + m) ∧ s'.sent = s.sent ∧
        s'.bbframe.take bb.kBch = frameAt bb p K ∧
        (n + m) * tsPacketBits / bb.dfl = K + 1 ∧
        ∀ i < m, (n + i) * tsPacketBits / bb.dfl = K := by
  have hd : 0 < bb.dfl := lt_trans (by decide) hbb.packet_lt
  induction fuel with
  | zero =>
    intro n s _ _ _ hK hle
    have h := (Nat.le_div_iff_mul_le hd).mpr hle
    rw [show n + 0 = n from rfl, hK] at h
    omega
  | succ fuel ih =>
    intro n s hs hlen hnull hK hle
    obtain ⟨t, hpush, hts, hsent, hout⟩ := pushPacket_spec hbb p n s hs
    rw [hnull n le_rfl] at hpush
    have hunfold : txFlushLoop bb.kBch (fuel + 1 + 1) s
        = txFlushLoop bb.kBch (fuel + 1) t := by
      rw [txFlushLoop, if_neg (not_not.mpr hlen)]
      rw [show makeNullPacket = nullPacket.bytes from rfl, hpush]
      dsimp only
      rw [if_neg (by decide)]
    rw [FrameOut] at hout
    rcases push_crosses hbb.packet_lt n with hsame | hnext
    · rw [if_pos hsame.symm] at hout
      obtain ⟨m, s', hrun, hts', hsent', hframe, hcross, hbelow⟩ := ih (n + 1) t hts hout.2
        (fun k hk => hnull k (by omega)) (hsame.trans hK)
        (by rw [show n + 1 + fuel = n + (fuel + 1) by omega]; exact hle)
      rw [show n + 1 + m = n + (m + 1) by omega] at hts' hcross
      refine ⟨m + 1, s', hunfold.trans hrun, hts', hsent'.trans hsent, hframe, hcross, ?_⟩
      intro i hi
      cases i with
      | zero => exact hK
      | succ i =>
        rw [show n + (i + 1) = n + 1 + i by omega]
        exact hbelow i (by omega)
    · have hk : bb.kBch ≠ 0 := by simp [hbb.kBch_eq]
      rw [if_neg (by omega)] at hout
      refine ⟨1, t, ?_, hts, hsent, ?_, by rw [hnext, hK], ?_⟩
      · rw [hunfold, txFlushLoop, if_pos (by rw [hout.2]; exact hk)]
      · rw [hout.1, hK]
      · intro i hi
        rw [show i = 0 by omega]
        exact hK

/-! ### The frames sent -/

theorem dataLen_txAfter (bb : BbFrameCtx) (p : ℕ → TsPacket) (n : ℕ) :
    (txAfter bb p n).dataLen = n * tsPacketBits % bb.dfl := by
  simp [txAt, TsTx.dataLen]

/-- `data_len > 0` after `n` packets of which the last completed no frame, or `data_len = 0`. -/
theorem frame_cleared_iff {d : ℕ} (hd : 0 < d) {n : ℕ} (hn : 0 < n) :
    (n - 1) * tsPacketBits / d = n * tsPacketBits / d ↔ tsPacketBits ≤ n * tsPacketBits % d := by
  obtain ⟨n, rfl⟩ : ∃ k, n = k + 1 := ⟨n - 1, by omega⟩
  rw [Nat.add_sub_cancel]
  have hsum : (n + 1) * tsPacketBits = n * tsPacketBits + tsPacketBits := Nat.add_one_mul _ _
  have hdm := Nat.div_add_mod ((n + 1) * tsPacketBits) d
  have hlt := Nat.mod_lt ((n + 1) * tsPacketBits) hd
  constructor
  · intro h
    have hle := Nat.div_mul_le_self (n * tsPacketBits) d
    rw [h, Nat.mul_comm] at hle
    omega
  · intro h
    refine Nat.div_eq_of_lt_le ?_ ?_
    · rw [Nat.mul_comm]
      omega
    · rw [Nat.add_one_mul, Nat.mul_comm _ d]
      have : 0 < tsPacketBits := by decide
      omega

theorem tsTxInit_ok (mc : Modcod) : tsTxInit mc 0 = .ok ⟨tsContext mc 0, [], 0, 0⟩ := rfl

/-- The transmitter run on the input packets followed by null packets. -/
theorem paddedRun_spec {mc : Modcod} (hmc : mc ∈ vlsnrModcodTable) (buf : List Bool)
    (ps : List TsPacket) (m : ℕ) :
    let bb := tsContext mc 0
    let p := packetAt nullPacket ps
    (paddedRun mc buf ps m).tx = txAfter bb p (ps.length + m) ∧
      (paddedRun mc buf ps m).frames
        = (List.range ((ps.length + m) * tsPacketBits / bb.dfl)).map (frameAt bb p) := by
  intro bb p
  have hpad : (ps ++ List.replicate m nullPacket).map TsPacket.bytes
      = (List.range (ps.length + m)).map fun k => (p k).bytes := by
    apply List.ext_getElem
    · simp
    · intro i h₁ h₂
      simp only [List.getElem_map, List.getElem_range, p, packetAt, List.getD_eq_getElem?_getD]
      congr 1
      by_cases hi : i < ps.length
      · rw [List.getElem_append_left hi, List.getElem?_eq_getElem hi, Option.getD_some]
      · rw [List.getElem_append_right (by omega), List.getElem_replicate,
          List.getElem?_eq_none (by omega), Option.getD_none]
  obtain ⟨htx, hframes, -⟩ := tsTxRun_spec (tsContext_valid hmc 0) p buf mc.kBch le_rfl
    (ps.length + m)
  rw [paddedRun, hpad, tsTxInit_eq (tsTxInit_ok mc) p]
  exact ⟨htx, hframes⟩

/-- The first `K + 1` frames are the frames to send when `m` null packets are the fewest that
complete frame `K`. -/
theorem sendsStream_of_crosses {mc : Modcod} (hmc : mc ∈ vlsnrModcodTable) (buf : List Bool)
    (ps : List TsPacket) (m : ℕ)
    (hpending : 0 < ps.length * tsPacketBits % (tsContext mc 0).dfl)
    (hcross : (ps.length + m) * tsPacketBits / (tsContext mc 0).dfl
      = ps.length * tsPacketBits / (tsContext mc 0).dfl + 1)
    (hbelow : ∀ i < m, (ps.length + i) * tsPacketBits / (tsContext mc 0).dfl
      = ps.length * tsPacketBits / (tsContext mc 0).dfl) :
    SendsStream mc buf ps ((List.range (ps.length * tsPacketBits / (tsContext mc 0).dfl + 1)).map
      (frameAt (tsContext mc 0) (packetAt nullPacket ps))) := by
  have hlen : ∀ i, (paddedRun mc buf ps i).frames.length
      = (ps.length + i) * tsPacketBits / (tsContext mc 0).dfl := fun i => by
    rw [(paddedRun_spec hmc buf ps i).2]
    simp
  have hdata : (paddedRun mc buf ps 0).tx.dataLen ≠ 0 := by
    rw [(paddedRun_spec hmc buf ps 0).1, dataLen_txAfter, Nat.add_zero]
    omega
  rw [SendsStream, if_neg hdata]
  refine ⟨m, ⟨?_, ?_⟩, ?_⟩
  · show (paddedRun mc buf ps 0).frames.length < (paddedRun mc buf ps m).frames.length
    rw [hlen, hlen, hcross, Nat.add_zero]
    exact Nat.lt_succ_self _
  · intro i hi
    have hi : (paddedRun mc buf ps 0).frames.length < (paddedRun mc buf ps i).frames.length := hi
    rw [hlen, hlen, Nat.add_zero] at hi
    by_contra hlt
    rw [hbelow i (by omega)] at hi
    exact lt_irrefl _ hi
  · rw [(paddedRun_spec hmc buf ps m).2, hcross]

/-- The first `M` frames recover the input packets as soon as they carry them whole. -/
theorem recovers_of_carries {mc : Modcod} (hmc : mc ∈ vlsnrModcodTable) (ps : List TsPacket)
    (M : ℕ) (hM : 0 < M) (hcarry : ps.length * tsPacketBits ≤ M * (tsContext mc 0).dfl) :
    Recovers mc ps
      ((List.range M).map (frameAt (tsContext mc 0) (packetAt nullPacket ps))) := by
  have hbb := tsContext_valid hmc 0
  have hjoin : joinPacket (tsContext mc 0).dfl 0 = 0 := by rw [joinPacket, Nat.zero_mul]; rfl
  have hcap : ((tsContext mc 0).dfl + (tsPacketBits - 1)) / tsPacketBits
      ≤ tsMaxPacketsPerFrame := by
    have hk := hbb.kBch_le
    rw [hbb.kBch_eq] at hk
    simp only [tsPacketBits, tsMaxPacketsPerFrame, ldpcNormal, bbHeaderBits] at hk ⊢
    omega
  obtain ⟨hrets, hret, -, hpackets⟩ := tsRxRun_recovers hbb (packetAt nullPacket ps) 0 M hM
    (tsRxInit mc) [] tsMaxPacketsPerFrame hcap
    (rxAt_reset (packetAt nullPacket ps) _ (tsRxInit mc) rfl rfl)
  simp only [Nat.zero_add] at hrets hret hpackets
  refine ⟨hrets, hret, ?_⟩
  rw [hpackets, hjoin, Nat.sub_zero, ← map_packetAt nullPacket ps]
  have hle : ps.length ≤ M * (tsContext mc 0).dfl / tsPacketBits :=
    (Nat.le_div_iff_mul_le (by decide)).mpr hcarry
  rw [← Nat.add_sub_cancel' hle, ← packetsFrom_append]
  refine List.prefix_append_of_prefix ?_
  simp [packetsFrom]

/-- The header of a transmitted frame says where the next packet starts. -/
theorem bbHeaderRead_frameAt {bb : BbFrameCtx} (hbb : bb.Valid) (p : ℕ → TsPacket) (j : ℕ) :
    ∃ data header, bbHeaderRead bb (frameAt bb p j) = .ok (data, header) ∧
      header.syncd = syncdAt bb.dfl j := by
  have hread := bbHeaderRead_tsFrame bb bb (syncdAt bb.dfl j) (fieldBits p bb.dfl j)
    (frameAt bb p j) rfl (fieldBits_length _ _ _) hbb.kBch_eq hbb.kBch_le
    (lt_trans (syncdAt_lt _ _) (by decide)) (frameAt_take hbb p j)
  exact ⟨_, _, hread, rfl⟩

/-- No data field is a whole number of packets long. -/
theorem dfl_not_dvd : ∀ mc ∈ vlsnrModcodTable, (mc.kBch - bbHeaderBits) % tsPacketBits ≠ 0 := by
  decide

/-- Two frames in a row differ: their `SYNCD` fields do. -/
theorem frameAt_ne_succ {mc : Modcod} (hmc : mc ∈ vlsnrModcodTable) (p : ℕ → TsPacket) (j : ℕ) :
    frameAt (tsContext mc 0) p j ≠ frameAt (tsContext mc 0) p (j + 1) := by
  intro h
  obtain ⟨data, header, hread, hsyncd⟩ := bbHeaderRead_frameAt (tsContext_valid hmc 0) p j
  obtain ⟨data', header', hread', hsyncd'⟩ :=
    bbHeaderRead_frameAt (tsContext_valid hmc 0) p (j + 1)
  rw [h, hread'] at hread
  obtain ⟨-, rfl⟩ := Prod.mk.inj (Except.ok.inj hread)
  have hdvd := dfl_not_dvd mc hmc
  rw [hsyncd', ← tsContext_dfl hmc 0, syncdAt, syncdAt, Nat.add_one_mul] at *
  simp only [tsPacketBits] at *
  omega

/-- Sending the frame in the buffer. -/
theorem sendFrame_ok (env : TxEnv) (hsend : ∀ k, env.sendOk k = true) (s : TxMain) :
    ∃ s', sendFrame env s = .running s' ∧
      s'.sent = s.sent ++ [s.bbframe.take s.ts.bb.kBch] := by
  unfold sendFrame
  dsimp only
  rw [if_pos (hsend _)]
  exact ⟨_, rfl, rfl⟩

/-- `main` up to the flush: all packets are read and the variables describe them. -/
theorem txMain_eq_txFlush {index : ℕ} {mc : Modcod} (hmc : vlsnrGetModcod index = some mc)
    (env : TxEnv) (hsend : ∀ k, env.sendOk k = true) (buf : List Bool) (ps : List TsPacket) :
    ∃ s, txMain env ⟨index, false⟩ buf (inputEvents ps)
        = txFlush env mc.kBch s ∧
      TxMainAt (tsContext mc 0) (packetAt nullPacket ps) ps.length s := by
  have hbb := tsContext_valid (vlsnrGetModcod_mem hmc) 0
  set p := packetAt nullPacket ps with hp
  have hzero : TxMainAt (tsContext mc 0) p 0 ⟨txAfter (tsContext mc 0) p 0, buf, 0, 0, 0, 0, []⟩ := by
    refine ⟨rfl, ?_, ?_⟩
    · simp
    · rw [if_pos rfl]
  obtain ⟨s, hrun, hs⟩ := txReadLoop_packets hbb p env hsend ⟨index, false⟩ _ hzero ps.length
  refine ⟨s, ?_, hs⟩
  have hevents : ps.map (fun q => ReadEvent.packet q.bytes)
      = (List.range ps.length).map fun k => .packet (p k).bytes := by
    have h := congrArg (List.map ReadEvent.packet) (map_packetAt nullPacket ps)
    rw [List.map_map, List.map_map] at h
    exact h.symm
  unfold txMain inputEvents
  rw [hmc]
  dsimp only
  rw [tsTxInit_ok]
  dsimp only
  have hmain := txReadLoop_append env ⟨index, false⟩ mc.kBch _ s _ [.eof] hrun
  rw [hevents, tsTxInit_eq (tsTxInit_ok mc) p, hmain, txReadLoop]
  simp only [txReadStep, if_true]

/-- Nothing pending: the flush does nothing. -/
theorem txFlush_of_dataLen_eq_zero (env : TxEnv) (kBch : ℕ) (s : TxMain)
    (h : s.ts.dataLen = 0) : txFlush env kBch s = some (0, s) := by
  rw [txFlush, if_pos h]

/-- A stale `frame_len`: the flush sends the old frame again. -/
theorem txFlush_stale (env : TxEnv) (hsend : ∀ k, env.sendOk k = true) (kBch : ℕ) (s : TxMain)
    (hk : kBch ≠ 0) (h : s.ts.dataLen ≠ 0) (hstale : s.frameLen ≠ 0) :
    ∃ s', txFlush env kBch s = some (0, s') ∧
      s'.sent = s.sent ++ [s.bbframe.take s.ts.bb.kBch] := by
  obtain ⟨s', hsent, hs'⟩ := sendFrame_ok env hsend s
  obtain ⟨k, rfl⟩ : ∃ k, kBch = k + 1 := ⟨kBch - 1, by omega⟩
  refine ⟨s', ?_, hs'⟩
  rw [txFlush, if_neg h, txFlushLoop, if_pos hstale]
  dsimp only
  rw [hsent]

/-- A cleared `frame_len`: the flush completes the next frame with null packets and sends it. -/
theorem txFlush_cleared {mc : Modcod} (hmc : mc ∈ vlsnrModcodTable) (env : TxEnv)
    (hsend : ∀ k, env.sendOk k = true) (ps : List TsPacket) (s : TxMain)
    (hs : TxMainAt (tsContext mc 0) (packetAt nullPacket ps) ps.length s)
    (h : s.ts.dataLen ≠ 0) (hclear : s.frameLen = 0) (buf : List Bool) :
    ∃ s', txFlush env mc.kBch s = some (0, s') ∧
      s'.sent = (List.range (ps.length * tsPacketBits / (tsContext mc 0).dfl + 1)).map
        (frameAt (tsContext mc 0) (packetAt nullPacket ps)) ∧
      SendsStream mc buf ps s'.sent := by
  have hbb := tsContext_valid hmc 0
  have hkBch : (tsContext mc 0).kBch = mc.kBch := rfl
  obtain ⟨fuel, hfuel⟩ : ∃ k, mc.kBch = k + 1 :=
    ⟨mc.kBch - 1, by have := (modcod_geometry mc hmc).1; omega⟩
  have hnull : ∀ k, ps.length ≤ k → packetAt nullPacket ps k = nullPacket := fun k hk => by
    simp [packetAt, List.getD_eq_getElem?_getD, hk]
  have hle : (ps.length * tsPacketBits / (tsContext mc 0).dfl + 1) * (tsContext mc 0).dfl
      ≤ (ps.length + fuel) * tsPacketBits := by
    have h₁ := Nat.div_mul_le_self (ps.length * tsPacketBits) (tsContext mc 0).dfl
    have h₂ : (tsContext mc 0).dfl ≤ fuel * tsPacketBits := by
      have := hbb.kBch_eq
      rw [hkBch, hfuel] at this
      simp only [bbHeaderBits, tsPacketBits] at this ⊢
      omega
    rw [Nat.add_one_mul, Nat.add_mul]
    exact Nat.add_le_add h₁ h₂
  obtain ⟨m, t, hrun, hts, hsent, hframe, hcross, hbelow⟩ :=
    txFlushLoop_spec hbb _ _ fuel ps.length s hs.ts_eq hclear hnull rfl hle
  obtain ⟨s', hsend', hs'⟩ := sendFrame_ok env hsend t
  have hall : s'.sent = (List.range (ps.length * tsPacketBits / (tsContext mc 0).dfl + 1)).map
      (frameAt (tsContext mc 0) (packetAt nullPacket ps)) := by
    rw [hs', hsent, hs.sent_eq, hts, show (txAfter (tsContext mc 0) (packetAt nullPacket ps)
      (ps.length + m)).bb.kBch = (tsContext mc 0).kBch from rfl, hframe, List.range_succ,
      List.map_append, List.map_singleton]
  refine ⟨s', ?_, hall, ?_⟩
  · rw [txFlush, if_neg h, hfuel, ← hfuel, ← hkBch]
    rw [hkBch, hfuel] at hrun ⊢
    rw [hrun]
    dsimp only
    rw [hsend']
  · have hpending : 0 < ps.length * tsPacketBits % (tsContext mc 0).dfl := by
      rw [hs.ts_eq, dataLen_txAfter] at h
      omega
    rw [hall]
    exact sendsStream_of_crosses hmc buf ps m hpending hcross hbelow

/-- The frames sent after a stale flush are not the frames to send: one goes out twice. -/
theorem not_sendsStream_of_stale {mc : Modcod} (hmc : mc ∈ vlsnrModcodTable) (buf : List Bool)
    (ps : List TsPacket) (K : ℕ) (sent : List (List Bool))
    (hpending : 0 < ps.length * tsPacketBits % (tsContext mc 0).dfl)
    (hsent : sent = (List.range (K + 1)).map (frameAt (tsContext mc 0) (packetAt nullPacket ps))
      ++ [frameAt (tsContext mc 0) (packetAt nullPacket ps) K]) :
    ¬ SendsStream mc buf ps sent := by
  have hdata : (paddedRun mc buf ps 0).tx.dataLen ≠ 0 := by
    rw [(paddedRun_spec hmc buf ps 0).1, dataLen_txAfter, Nat.add_zero]
    omega
  rw [SendsStream, if_neg hdata]
  rintro ⟨m, -, hm⟩
  rw [(paddedRun_spec hmc buf ps m).2, hsent] at hm
  have hlen := congrArg List.length hm
  simp only [List.length_append, List.length_map, List.length_range, List.length_singleton]
    at hlen
  rw [← hlen, show List.range (K + 1 + 1) = List.range (K + 1) ++ [K + 1] from List.range_succ,
    List.map_append, List.map_singleton] at hm
  have hlast := List.append_cancel_left hm
  exact frameAt_ne_succ hmc _ K (List.singleton_inj.mp hlast)

/-! ### The three ways the input can end -/

section
variable {index : ℕ} {mc : Modcod} (hmc : vlsnrGetModcod index = some mc) (env : TxEnv)
  (hsend : ∀ k, env.sendOk k = true) (buf : List Bool) (ps : List TsPacket) (hps : ps ≠ [])
include hmc hsend hps

/-- The input ends on a frame boundary. -/
theorem txMain_of_boundary
    (hz : ps.length * tsPacketBits % (tsContext mc 0).dfl = 0) :
    ∃ s, txMain env ⟨index, false⟩ buf (inputEvents ps)
        = some (0, s) ∧ SendsStream mc buf ps s.sent ∧ Recovers mc ps s.sent := by
  have hmem := vlsnrGetModcod_mem hmc
  obtain ⟨t, hmain, ht⟩ := txMain_eq_txFlush hmc env hsend buf ps
  have hdata : t.ts.dataLen = 0 := by rw [ht.ts_eq, dataLen_txAfter, hz]
  have hmul : ps.length * tsPacketBits / (tsContext mc 0).dfl * (tsContext mc 0).dfl
      = ps.length * tsPacketBits := Nat.div_mul_cancel (Nat.dvd_of_mod_eq_zero hz)
  refine ⟨t, hmain.trans (txFlush_of_dataLen_eq_zero env mc.kBch t hdata), ?_, ?_⟩
  · have hzero : (paddedRun mc buf ps 0).tx.dataLen = 0 := by
      rw [(paddedRun_spec hmem buf ps 0).1, dataLen_txAfter, Nat.add_zero, hz]
    rw [SendsStream, if_pos hzero, (paddedRun_spec hmem buf ps 0).2, ht.sent_eq, Nat.add_zero]
  · rw [ht.sent_eq]
    refine recovers_of_carries hmem ps _ (Nat.pos_of_ne_zero fun h => ?_) hmul.ge
    have hbits : 0 < ps.length * tsPacketBits :=
      Nat.mul_pos (List.length_pos_iff.mpr hps) (by decide)
    rw [h, Nat.zero_mul] at hmul
    omega

/-- The last packet read completed no frame. -/
theorem txMain_of_cleared
    (hge : tsPacketBits ≤ ps.length * tsPacketBits % (tsContext mc 0).dfl) :
    ∃ s, txMain env ⟨index, false⟩ buf (inputEvents ps)
        = some (0, s) ∧ SendsStream mc buf ps s.sent ∧ Recovers mc ps s.sent := by
  have hmem := vlsnrGetModcod_mem hmc
  have hd : 0 < (tsContext mc 0).dfl := lt_trans (by decide) (tsContext_valid hmem 0).packet_lt
  obtain ⟨t, hmain, ht⟩ := txMain_eq_txFlush hmc env hsend buf ps
  have hdata : t.ts.dataLen ≠ 0 := by
    rw [ht.ts_eq, dataLen_txAfter]
    exact Nat.ne_of_gt (lt_of_lt_of_le (by decide) hge)
  have hframe := ht.frame
  rw [if_pos ((frame_cleared_iff hd (List.length_pos_iff.mpr hps)).mpr hge)] at hframe
  obtain ⟨s, hflush, hsent, hsends⟩ := txFlush_cleared hmem env hsend ps t ht hdata hframe buf
  refine ⟨s, hmain.trans hflush, hsends, ?_⟩
  rw [hsent]
  refine recovers_of_carries hmem ps _ (Nat.succ_pos _) ?_
  rw [Nat.mul_comm _ (tsContext mc 0).dfl]
  exact (Nat.lt_mul_div_succ _ hd).le

/-- The last packet read completed a frame and left bits over: `frame_len` still holds that
frame's length, and the frame is sent again instead of the bits. -/
theorem txMain_of_stale (hpos : 0 < ps.length * tsPacketBits % (tsContext mc 0).dfl)
    (hlt : ps.length * tsPacketBits % (tsContext mc 0).dfl < tsPacketBits) :
    ∃ s, txMain env ⟨index, false⟩ buf (inputEvents ps)
        = some (0, s) ∧ ¬ SendsStream mc buf ps s.sent := by
  have hmem := vlsnrGetModcod_mem hmc
  have hbb := tsContext_valid hmem 0
  have hd : 0 < (tsContext mc 0).dfl := lt_trans (by decide) hbb.packet_lt
  have hn : 0 < ps.length := List.length_pos_iff.mpr hps
  have hk : mc.kBch ≠ 0 := by
    have := (modcod_geometry mc hmem).1
    omega
  obtain ⟨t, hmain, ht⟩ := txMain_eq_txFlush hmc env hsend buf ps
  have hdata : t.ts.dataLen ≠ 0 := by
    rw [ht.ts_eq, dataLen_txAfter]
    omega
  have hcross := mt (frame_cleared_iff hd hn).mp (not_le.mpr hlt)
  have hframe := ht.frame
  rw [if_neg hcross] at hframe
  obtain ⟨s, hflush, hsent⟩ := txFlush_stale env hsend mc.kBch t hk hdata
    (by rw [hframe.1]; exact hk)
  refine ⟨s, hmain.trans hflush, not_sendsStream_of_stale hmem buf ps
    ((ps.length - 1) * tsPacketBits / (tsContext mc 0).dfl) s.sent hpos ?_⟩
  have hnext := push_crosses hbb.packet_lt (ps.length - 1)
  rw [Nat.sub_add_cancel hn] at hnext
  rw [hsent, ht.sent_eq, hnext.resolve_left fun h => hcross h.symm, ht.ts_eq,
    show (txAfter (tsContext mc 0) (packetAt nullPacket ps) ps.length).bb.kBch
      = (tsContext mc 0).kBch from rfl, hframe.2]

end

/-- **What the transmitter tool sends.**  It sends every frame of the padded stream once, and
the receiver recovers every input packet, if and only if the bits pending when the input ends
are none or at least one packet: otherwise the last packet read has just completed a frame and
`frame_len` still holds its length. -/
theorem txMain_sends_stream_iff (index : ℕ) (mc : Modcod) (hmc : vlsnrGetModcod index = some mc)
    (env : TxEnv) (hsend : ∀ k, env.sendOk k = true) (buf : List Bool) (ps : List TsPacket)
    (hps : ps ≠ []) :
    ∃ s, txMain env ⟨index, false⟩ buf (inputEvents ps)
        = some (0, s) ∧
      ((SendsStream mc buf ps s.sent ∧ Recovers mc ps s.sent) ↔
        ps.length * tsPacketBits % (mc.kBch - bbHeaderBits) = 0 ∨
          tsPacketBits ≤ ps.length * tsPacketBits % (mc.kBch - bbHeaderBits)) := by
  rw [← tsContext_dfl (vlsnrGetModcod_mem hmc) 0]
  rcases Nat.eq_zero_or_pos (ps.length * tsPacketBits % (tsContext mc 0).dfl) with hz | hpos
  · obtain ⟨s, hmain, hsends⟩ := txMain_of_boundary hmc env hsend buf ps hps hz
    exact ⟨s, hmain, iff_of_true hsends (Or.inl hz)⟩
  · by_cases hge : tsPacketBits ≤ ps.length * tsPacketBits % (tsContext mc 0).dfl
    · obtain ⟨s, hmain, hsends⟩ := txMain_of_cleared hmc env hsend buf ps hps hge
      exact ⟨s, hmain, iff_of_true hsends (Or.inr hge)⟩
    · obtain ⟨s, hmain, hnot⟩ :=
        txMain_of_stale hmc env hsend buf ps hps hpos (not_le.mp hge)
      exact ⟨s, hmain, iff_of_false (fun h => hnot h.1) (by omega)⟩

theorem vlsnrGetModcod_five : vlsnrGetModcod 5 = some vlsnrModcodTable[4] := rfl

/-- Three packets fill the spread short frame once and leave more than one packet pending, so
there the tool does what it is for. -/
theorem txMain_sends_stream_three :
    ∃ s, txMain ⟨fun _ => true, true⟩ ⟨5, false⟩ []
        (inputEvents [nullPacket, nullPacket, nullPacket]) = some (0, s) ∧
      ((SendsStream vlsnrModcodTable[4] [] [nullPacket, nullPacket, nullPacket] s.sent ∧
          Recovers vlsnrModcodTable[4] [nullPacket, nullPacket, nullPacket] s.sent) ↔
        [nullPacket, nullPacket, nullPacket].length * tsPacketBits
            % (vlsnrModcodTable[4].kBch - bbHeaderBits) = 0 ∨
          tsPacketBits ≤ [nullPacket, nullPacket, nullPacket].length * tsPacketBits
            % (vlsnrModcodTable[4].kBch - bbHeaderBits)) :=
  txMain_sends_stream_iff 5 vlsnrModcodTable[4] vlsnrGetModcod_five ⟨fun _ => true, true⟩
    (fun _ => rfl) [] [nullPacket, nullPacket, nullPacket] (by simp)

/-- Two packets leave 576 bits of the second pending behind a frame just completed: that frame
goes out twice and the bits not at all. -/
theorem txMain_resends_frame :
    ∃ s, txMain ⟨fun _ => true, true⟩ ⟨5, false⟩ []
        (inputEvents [nullPacket, nullPacket]) = some (0, s) ∧
      ¬ SendsStream vlsnrModcodTable[4] [] [nullPacket, nullPacket] s.sent := by
  have hrow : vlsnrModcodTable[4] ∈ vlsnrModcodTable := List.getElem_mem _
  have hmod : [nullPacket, nullPacket].length * tsPacketBits % (tsContext vlsnrModcodTable[4] 0).dfl
      = 576 := by
    rw [tsContext_dfl hrow]
    rfl
  exact txMain_of_stale vlsnrGetModcod_five ⟨fun _ => true, true⟩ (fun _ => rfl) []
    [nullPacket, nullPacket] (by simp) (by rw [hmod]; decide) (by rw [hmod]; decide)

end OpenVlsnr
