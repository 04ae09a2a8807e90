import OpenVlsnr.Loopback

/-!
# A transport stream over the air

The BBFRAMEs that the TS transmitter emits, each modulated, carried over a path of its own,
demodulated by a receiver without a lock and pushed into the TS receiver (`linkRun`).  The link adds
nothing to the TS layers: what comes out is what the TS receiver makes of the frames themselves
(`linkRun_frames`), so it is every packet from the join packet up to the last complete one
(`ts_over_air`).
-/

namespace OpenVlsnr

variable (s : StageSetup)

/-! ### The link -/

/-- The receiving end: the demodulator, the TS receiver, the packets that have come out and the
return codes of both. -/
structure LinkEnd where
  demod : Demodulator ℝ
  rx : TsRx
  packets : List PacketBuf
  rets : List ℤ

/-- One BBFRAME over one path; a frame that does not decode is not pushed. -/
noncomputable def linkStep (mod : Modulator ℝ) (noiseVar : ℝ) (out : List PacketBuf)
    (packetCapacity : ℕ) (link : LinkEnd) (sent : List Bool × AirPath) : LinkEnd :=
  let tx := modulateBbframeSymbols Sqrt2.exact mod sent.1 [] (modFrameLen mod.modcod)
  let call := demodulateBbframeSymbols (codeStages s) link.demod
    (sent.2.carry (tx.symbols.take tx.symLen)) noiseVar [] ldpcNormal
  if call.ret < 0 then { link with demod := call.demod, rets := link.rets ++ [call.ret] }
  else
    let push := tsRxPush link.rx (call.output.take call.outputLen) out packetCapacity
    { demod := call.demod
      rx := push.rx
      packets := link.packets ++ push.packets.take push.packetCount
      rets := link.rets ++ [call.ret, push.ret] }

noncomputable def linkRun (mod : Modulator ℝ) (noiseVar : ℝ) (out : List PacketBuf)
    (packetCapacity : ℕ) (link : LinkEnd) (sent : List (List Bool × AirPath)) : LinkEnd :=
  sent.foldl (linkStep s mod noiseVar out packetCapacity) link

/-- A demodulator that has no lock, and what it needs for frames of the modulator. -/
structure Acquiring (demod : Demodulator ℝ) (goldIdx : ℕ) : Prop where
  tuned : Tuned demod goldIdx
  search : demod.state = .search

variable {mod₀ mod : Modulator ℝ} {noiseVar : ℝ}

/-- **One frame** over the link is one push. -/
theorem linkStep_frame (hready : ModReady mod₀) (halike : ModAlike mod₀ mod) (hnoise : 0 ≤ noiseVar)
    (hnv : noiseVar ≤ 1000) {link : LinkEnd} (hlink : Acquiring link.demod mod₀.plScramblingIdx)
    {frame : List Bool} (hframe : frame.length = mod₀.modcod.kBch) {path : AirPath}
    (hpath : path.Acquirable mod₀.modcod) (out : List PacketBuf) (packetCapacity : ℕ) :
    let push := tsRxPush link.rx frame out packetCapacity
    let next := linkStep s mod noiseVar out packetCapacity link (frame, path)
    Acquiring next.demod mod₀.plScramblingIdx ∧ next.rx = push.rx ∧
      next.packets = link.packets ++ push.packets.take push.packetCount ∧
      next.rets = link.rets ++ [ok, push.ret] := by
  intro push next
  obtain ⟨-, hnormal, -⟩ := modcod_geometry mod₀.modcod hready.mem
  obtain ⟨-, hair⟩ := halike.airFrame hready.mem frame [] (le_refl (modFrameLen mod₀.modcod))
  have hclear := hpath.clear hlink.search
  obtain ⟨hdelivered, hcall⟩ := demodulateBbframeSymbols_at s (φ := path.phase) hready.mem hready.bch
    hready.ldpc hframe hlink.tuned hclear.aimed hclear.channel hclear.tail hclear.room hnoise hnv []
    ldpcNormal
  rw [if_neg (not_lt.mpr hnormal), memcpyAt, List.take_nil, List.drop_nil, List.nil_append,
    List.append_nil] at hcall
  have hsymbols : path.carry (modFrame Sqrt2.exact mod₀.modcod mod₀.plScramblingIdx
      (txCoded mod₀.modcod mod₀.bchEnc mod₀.ldpcEnc frame))
      = onCarrier path.gain path.phase path.carrier (burst mod₀.modcod mod₀.plScramblingIdx
        (txCoded mod₀.modcod mod₀.bchEnc mod₀.ldpcEnc frame) path.lead path.tail) := rfl
  have hnext : next = linkStep s mod noiseVar out packetCapacity link (frame, path) := rfl
  rw [linkStep] at hnext
  dsimp only at hnext
  rw [halike.modcod, hair, hsymbols] at hnext
  generalize demodulateBbframeSymbols (codeStages s) link.demod _ noiseVar [] ldpcNormal = call
    at hdelivered hcall hnext
  obtain ⟨hret, houtput, hlen⟩ :
      call.ret = ok ∧ call.output = frame ∧ call.outputLen = mod₀.modcod.kBch := by
    simpa only [Prod.mk.injEq] using hcall
  rw [hret, if_neg (lt_irrefl 0), houtput, hlen, ← hframe, List.take_length] at hnext
  rw [hnext]
  exact ⟨⟨hdelivered.tuned, hdelivered.state.trans hlink.search⟩, rfl, rfl, rfl⟩

/-- **The link adds nothing**: the TS receiver sees the frames that were sent. -/
theorem linkRun_frames (hready : ModReady mod₀) (halike : ModAlike mod₀ mod) (hnoise : 0 ≤ noiseVar)
    (hnv : noiseVar ≤ 1000) {demod : Demodulator ℝ}
    (hdemod : Acquiring demod mod₀.plScramblingIdx) (rx : TsRx) (sent : List (List Bool × AirPath))
    (hsent : ∀ f ∈ sent, f.1.length = mod₀.modcod.kBch ∧ f.2.Acquirable mod₀.modcod)
    (out : List PacketBuf) (packetCapacity : ℕ) :
    let link := linkRun s mod noiseVar out packetCapacity ⟨demod, rx, [], []⟩ sent
    let run := tsRxRun out packetCapacity rx (sent.map Prod.fst)
    Acquiring link.demod mod₀.plScramblingIdx ∧ link.rx = run.rx ∧ link.packets = run.packets ∧
      link.rets = run.rets.flatMap fun ret => [ok, ret] := by
  intro link run
  -- the two runs side by side, from any point on
  suffices h : ∀ (start : LinkEnd) (r : TsRxRun), Acquiring start.demod mod₀.plScramblingIdx →
      start.rx = r.rx → start.packets = r.packets → (start.rets = r.rets.flatMap fun ret => [ok, ret]) →
      let l := sent.foldl (linkStep s mod noiseVar out packetCapacity) start
      let q := (sent.map Prod.fst).foldl (tsRxRunStep out packetCapacity) r
      Acquiring l.demod mod₀.plScramblingIdx ∧ l.rx = q.rx ∧ l.packets = q.packets ∧
        l.rets = q.rets.flatMap fun ret => [ok, ret] from
    h ⟨demod, rx, [], []⟩ ⟨rx, [], []⟩ hdemod rfl rfl rfl
  clear link run hdemod
  induction sent with
  | nil => exact fun start r hstart hrx hpackets hrets => ⟨hstart, hrx, hpackets, hrets⟩
  | cons f sent ih =>
    intro start r hstart hrx hpackets hrets
    obtain ⟨hlen, hpath⟩ := hsent f List.mem_cons_self
    obtain ⟨hnext, hrx', hpackets', hrets'⟩ := linkStep_frame s hready halike hnoise hnv hstart hlen
      hpath out packetCapacity
    refine ih (fun f' hf' => hsent f' (List.mem_cons_of_mem f hf')) _ _ hnext ?_ ?_ ?_
    · rw [hrx', hrx]
      rfl
    · rw [hpackets', hrx, hpackets]
      rfl
    · rw [hrets', hrx, hrets]
      simp [tsRxRunStep]

/-! ### The stream -/

/-- **A transport stream over the air.**  Any stretch of the frames emitted for the packets `ps`,
each over an acquirable path, brings out exactly the packets from the first that starts in the
stretch to the last that ends in it, and every call succeeds. -/
theorem ts_over_air {math : RrcMath ℝ} {modcodIdx : ℕ} {rolloff : ℝ} {sps goldIdx : ℕ}
    (hmod : modulatorInit math modcodIdx rolloff sps goldIdx = some (.ok mod₀))
    (modOps : List (ModOp ℝ)) {rolloff' : ℝ} {sps' : ℕ} {demod₀ : Demodulator ℝ}
    (hdemod : demodulatorInit rolloff' sps' goldIdx = .ok demod₀) (ops : List (DemodOp ℝ))
    (hops : ∀ op ∈ ops, op.uncancelled) (hsearch : (demodRun demod₀ ops).state = .search)
    (hnoise : 0 ≤ noiseVar) (hnv : noiseVar ≤ 1000) {ro : Byte} {tx : TsTx}
    (htx : tsTxInit mod₀.modcod ro = .ok tx) (ps : List TsPacket) (buf : List Bool) {frameCapacity : ℕ}
    (hframe : mod₀.modcod.kBch ≤ frameCapacity) (out : List PacketBuf)
    {packetCapacity : ℕ} (hcapacity : (mod₀.modcod.kBch - bbHeaderBits + (tsPacketBits - 1)) / tsPacketBits
      ≤ packetCapacity) {j : ℕ} {paths : List AirPath} (hsome : paths ≠ [])
    (hstretch : j + paths.length
      ≤ (tsTxRun frameCapacity tx buf (ps.map TsPacket.bytes)).frames.length)
    (hpaths : ∀ path ∈ paths, path.Acquirable mod₀.modcod) :
    let d := mod₀.modcod.kBch - bbHeaderBits
    let frames := (tsTxRun frameCapacity tx buf (ps.map TsPacket.bytes)).frames
    let link := linkRun s (modRun Sqrt2.exact mod₀ modOps) noiseVar out packetCapacity
      ⟨demodRun demod₀ ops, tsRxInit mod₀.modcod, [], []⟩ ((frames.drop j).zip paths)
    let last := tsRxFinalizeUnchecked link.rx out 1
    let first := joinPacket d j
    (∀ ret ∈ link.rets ++ [last.ret], ret = ok) ∧
      link.packets ++ last.packets.take last.packetCount
        = ((ps.drop first).take ((j + paths.length) * d / tsPacketBits - first)).map
            TsPacket.bytes := by
  intro d frames link last first
  obtain ⟨hready, -, -, hgold⟩ := modulatorInit_ready hmod
  obtain ⟨-, halike⟩ := modRun_inv Sqrt2.exact modOps hready (.refl mod₀)
  have hmc := hready.mem
  have hvalid := tsContext_valid hmc ro
  have hdfl : (tsContext mod₀.modcod ro).dfl = d := tsContext_dfl hmc ro
  set p := packetAt default ps with hp
  have hframes : frames = (List.range (ps.length * tsPacketBits / d)).map
      (frameAt (tsContext mod₀.modcod ro) p) := tsTxRun_frames hmc htx ps buf hframe
  have hcount : j + paths.length ≤ ps.length * tsPacketBits / d := by
    have h := hstretch
    rw [show (tsTxRun frameCapacity tx buf (ps.map TsPacket.bytes)).frames = _ from hframes,
      List.length_map, List.length_range] at h
    exact h
  -- the frames of the stretch
  have hmap : ((frames.drop j).zip paths).map Prod.fst
      = (List.range paths.length).map fun i => frameAt (tsContext mod₀.modcod ro) p (j + i) := by
    refine List.ext_getElem ?_ fun i hi hi' => ?_
    · simp [hframes]
      omega
    · simp [hframes]
  have hsent : ∀ f ∈ (frames.drop j).zip paths, f.1.length = mod₀.modcod.kBch ∧
      f.2.Acquirable mod₀.modcod := by
    intro f hf
    obtain ⟨hfst, hsnd⟩ := List.of_mem_zip (a := f.1) (b := f.2) hf
    refine ⟨?_, hpaths _ hsnd⟩
    obtain ⟨i, -, hi⟩ := List.mem_map.mp (hframes ▸ List.mem_of_mem_drop hfst)
    rw [← hi]
    exact frameAt_length hvalid p i
  have hacquiring : Acquiring (demodRun demod₀ ops) mod₀.plScramblingIdx :=
    ⟨hgold.symm ▸ tuned_run hdemod ops hops, hsearch⟩
  obtain ⟨-, hrx, hpackets, hrets⟩ := linkRun_frames s hready halike hnoise hnv hacquiring
    (tsRxInit mod₀.modcod) _ hsent out packetCapacity
  rw [hmap] at hrx hpackets hrets
  -- what the TS receiver makes of them
  have hat : RxAt (tsContext mod₀.modcod ro) p (joinPacket d j) 0 (tsRxInit mod₀.modcod) :=
    (rxAt_iff_over p _ 0 _).mpr (rxOverAt_fresh ro _ (.inl rfl))
  obtain ⟨hoks, hlast, hjoin, hall⟩ := tsRxRun_recovers hvalid p j paths.length
    (List.length_pos_iff.mpr hsome) (tsRxInit mod₀.modcod) out packetCapacity
    (by rw [hdfl]; exact hcapacity) (by rw [hdfl]; exact hat)
  rw [hdfl] at hjoin hall
  have hlink : link = linkRun s (modRun Sqrt2.exact mod₀ modOps) noiseVar out packetCapacity
    ⟨demodRun demod₀ ops, tsRxInit mod₀.modcod, [], []⟩ ((frames.drop j).zip paths) := rfl
  rw [← hlink] at hrx hpackets hrets
  refine ⟨fun ret hret => ?_, ?_⟩
  · rcases List.mem_append.mp hret with h | h
    · rw [hrets] at h
      obtain ⟨ret', hret', hmem⟩ := List.mem_flatMap.mp h
      rcases List.mem_pair.mp hmem with rfl | rfl
      · rfl
      · exact hoks _ hret'
    · rw [List.mem_singleton.mp h]
      show (tsRxFinalizeUnchecked link.rx out 1).ret = ok
      rw [hrx]
      exact hlast
  · show link.packets ++ (tsRxFinalizeUnchecked link.rx out 1).packets.take
      (tsRxFinalizeUnchecked link.rx out 1).packetCount = _
    rw [hrx, hpackets, hall, packetsFrom_packetAt]
    have hbits : (j + paths.length) * d ≤ ps.length * tsPacketBits :=
      (Nat.mul_le_mul_right d hcount).trans (Nat.div_mul_le_self _ _)
    have hle : (j + paths.length) * d / tsPacketBits ≤ ps.length :=
      Nat.div_le_of_le_mul (hbits.trans_eq (Nat.mul_comm _ _))
    show joinPacket d j + _ ≤ _
    omega

/-- Two packets, and the one frame that they fill. -/
theorem ts_over_air_two : ∃ mod₀ : Modulator ℝ,
    modulatorInit RrcMath.exact 5 (1 / 5) 2 7 = some (.ok mod₀) ∧
      ∃ tx, tsTxInit mod₀.modcod 0 = .ok tx ∧
        let frames := (tsTxRun 2512 tx [] ([default, default].map TsPacket.bytes)).frames
        let link := linkRun startSetup (modRun Sqrt2.exact mod₀ []) 0 [] 3
          ⟨demodRun (freshDemodulator (1 / 5) 2 7) [.setMaxLdpcIterations 10],
            tsRxInit mod₀.modcod, [], []⟩ ((frames.drop 0).zip [firstPath])
        let last := tsRxFinalizeUnchecked link.rx [] 1
        (∀ ret ∈ link.rets ++ [last.ret], ret = ok) ∧
          link.packets ++ last.packets.take last.packetCount = [(default : TsPacket).bytes] := by
  have hfifth : ∀ mc ∈ vlsnrModcodTable, mc.index = 5 → mc = vlsnrModcodTable[4] := by decide
  obtain ⟨mod₀, hinit, hready, -, hindex, -⟩ := (modulatorInit_accepts RrcMath.exact 5 (1 / 5) 2 7).1
    ⟨by decide, by decide, by norm_num, by decide⟩
  have hmc : mod₀.modcod = vlsnrModcodTable[4] := hfifth _ hready.mem hindex
  have htx : tsTxInit mod₀.modcod 0 = .ok ⟨tsContext mod₀.modcod 0, [], 0, 0⟩ := rfl
  have hbits : mod₀.modcod.kBch - bbHeaderBits = 2432 := by
    rw [hmc]
    rfl
  have hroom : mod₀.modcod.kBch ≤ 2512 := by
    rw [hmc]
    decide
  have hcapacity : (2432 + (tsPacketBits - 1)) / tsPacketBits ≤ 3 := by decide
  refine ⟨mod₀, hinit, _, htx, ?_⟩
  have hcount : 0 + [firstPath].length ≤ (tsTxRun 2512 ⟨tsContext mod₀.modcod 0, [], 0, 0⟩ []
      ([default, default].map TsPacket.bytes)).frames.length := by
    rw [tsTxRun_frames hready.mem htx [default, default] [] hroom, List.length_map,
      List.length_range, hbits]
    decide
  obtain ⟨hrets, hpackets⟩ := ts_over_air startSetup hinit [] demodulatorInit_real
    [.setMaxLdpcIterations 10] (by simp [DemodOp.uncancelled]) rfl le_rfl (by norm_num) htx
    [default, default] [] hroom [] (hbits.symm ▸ hcapacity) (List.cons_ne_nil firstPath []) hcount
    (by simp [firstPath_acquirable])
  refine ⟨hrets, hpackets.trans ?_⟩
  rw [hbits]
  rfl

end OpenVlsnr
