import OpenVlsnr.TsRxBits

/-!
# The receiver, and the round trip

The receiver that joined the stream at packet `s` and has consumed `b` bits since is described
by `RxHeld p s b`: it holds the first `b % 1504` bits of packet `s + b / 1504` and, once a
packet has been completed, that last packet waiting for its CRC.  It is the receiver over the stream
of those packets (`rxHeld_iff_over`), in which every check passes (`rxCheck_streamFrom`); a frame
moves it by the bits it takes from that frame (`tsRxPush_spec`) and any stretch of frames by their
total (`tsRxRun_spec`).

`tsRoundTrip` puts transmitter and receiver together.
-/

namespace OpenVlsnr

/-! ### Packets as they are sent -/

/-- Bit `i` of packet `k`, as it is sent. -/
theorem streamBit_packet (p : ℕ → TsPacket) (k i : ℕ) (hi : i < tsPacketBits) :
    streamBit p (k * tsPacketBits + i) = (streamByte p k (i / 8)).getLsbD (7 - i % 8) := by
  rw [← pushed_bit p k i hi, streamByte]
  by_cases h : i < 8
  · rw [if_pos h, if_pos (by omega)]
  · rw [if_neg h, if_neg (by omega)]

/-- The partial packet of a receiver: the first `r` bits of packet `k` as sent, the rest of
the byte in progress still clear. -/
structure PacketPrefix (p : ℕ → TsPacket) (k r : ℕ) (packet : PacketBuf) : Prop where
  filled : ∀ i < r, packetBit packet i = streamBit p (k * tsPacketBits + i)
  clear : ∀ i, r ≤ i → i / 8 = r / 8 → r % 8 ≠ 0 → packetBit packet i = false

/-! ### The receiver inside a frame -/

/-- Consecutive packets of the stream: `m` of them from packet `a` on. -/
def packetsFrom (p : ℕ → TsPacket) (a m : ℕ) : List PacketBuf :=
  (List.range m).map fun i => (p (a + i)).bytes

theorem packetsFrom_succ (p : ℕ → TsPacket) (a m : ℕ) :
    packetsFrom p a (m + 1) = packetsFrom p a m ++ [(p (a + m)).bytes] := by
  simp [packetsFrom, List.range_succ]

theorem packetsFrom_append (p : ℕ → TsPacket) (a m n : ℕ) :
    packetsFrom p a m ++ packetsFrom p (a + m) n = packetsFrom p a (m + n) := by
  induction n with
  | zero => simp [packetsFrom]
  | succ n ih => rw [packetsFrom_succ, ← List.append_assoc, ih, ← Nat.add_assoc, packetsFrom_succ,
      Nat.add_assoc a m n]

/-- The receiver that joined at packet `s` and has consumed `b` bits since. -/
structure RxHeld (p : ℕ → TsPacket) (s b : ℕ) (packet previous : PacketBuf) (packetBits : ℕ)
    (havePrevious : Bool) : Prop where
  bits : packetBits = b % tsPacketBits
  have_iff : havePrevious = decide (0 < b / tsPacketBits)
  previous_eq : 0 < b / tsPacketBits → previous = (p (s + b / tsPacketBits - 1)).bytes
  partial_eq : PacketPrefix p (s + b / tsPacketBits) (b % tsPacketBits) packet

/-! ### Transmitted streams -/

section Transmitted
variable (p : ℕ → TsPacket) (s : ℕ)

/-- The stream from packet `s` on. -/
def streamFrom (g : ℕ) : Bool := streamBit p (s * tsPacketBits + g)

theorem rxByte_streamFrom {k c : ℕ} (hc : c < tsPacketSize) :
    rxByte (streamFrom p s) (k * tsPacketBits + 8 * c) = streamByte p (s + k) c := by
  apply BitVec.eq_of_getLsbD_eq
  intro j hj
  have hi : 8 * c + (7 - j) < tsPacketBits := by
    simp only [tsPacketBits, tsPacketSize] at hc ⊢
    omega
  rw [rxByte_getLsbD _ _ _ hj, streamFrom, ← Nat.add_assoc, ← Nat.add_assoc, ← Nat.add_mul,
    Nat.add_assoc, streamBit_packet _ _ _ hi]
  congr 2 <;> omega

/-- A chunk of the stream is a packet, behind the CRC of the packet before it. -/
theorem rxChunk_streamFrom (k : ℕ) : rxChunk (streamFrom p s) k = (p (s + k)).bytes := by
  apply Vector.ext
  intro c hc
  rw [rxChunk, Vector.getElem_ofFn]
  by_cases hz : c = 0
  · subst hz
    exact (p (s + k)).sync.symm
  · rw [if_neg hz, rxByte_streamFrom p s hc, streamByte, if_neg hz]
    simp [List.getD_eq_getElem?_getD, hc]

theorem rxCheck_streamFrom (k : ℕ) : rxCheck (streamFrom p s) k := by
  have hmarker := rxByte_streamFrom p s (k := k + 1) (c := 0) (by decide)
  rw [Nat.mul_zero, Nat.add_zero] at hmarker
  rw [rxCheck, rxChunk_streamFrom, rxMarker, hmarker, streamByte, if_pos rfl, markerOf,
    if_neg (by omega)]
  rfl

theorem chunksFrom_streamFrom (a m : ℕ) :
    chunksFrom (streamFrom p s) a m = packetsFrom p (s + a) m := by
  simp only [chunksFrom, packetsFrom, rxChunk_streamFrom, Nat.add_assoc]

theorem rxHeld_iff_over (b : ℕ) (packet previous : PacketBuf) (packetBits : ℕ)
    (havePrevious : Bool) :
    RxHeld p s b packet previous packetBits havePrevious ↔
      RxOver (streamFrom p s) b packet previous packetBits havePrevious := by
  have hbit : ∀ i, streamFrom p s (b / tsPacketBits * tsPacketBits + i)
      = streamBit p ((s + b / tsPacketBits) * tsPacketBits + i) := fun i => by
    rw [streamFrom, Nat.add_mul, Nat.add_assoc]
  have hchunk : 0 < b / tsPacketBits → rxChunk (streamFrom p s) (b / tsPacketBits - 1)
      = (p (s + b / tsPacketBits - 1)).bytes := fun h => by
    rw [rxChunk_streamFrom, Nat.add_sub_assoc h]
  constructor
  · intro h
    exact ⟨h.bits, h.have_iff, fun hpos => (h.previous_eq hpos).trans (hchunk hpos).symm,
      ⟨fun i hi => (h.partial_eq.filled i hi).trans (hbit i).symm, h.partial_eq.clear⟩⟩
  · intro h
    exact ⟨h.bits, h.have_iff, fun hpos => (h.previous_eq hpos).trans (hchunk hpos),
      ⟨fun i hi => (h.partial_eq.filled i hi).trans (hbit i), h.partial_eq.clear⟩⟩

end Transmitted

/-! ### One frame -/

/-- The receiver that joined at packet `s` and has consumed `b` bits since. -/
structure RxAt (bb : BbFrameCtx) (p : ℕ → TsPacket) (s b : ℕ) (rx : TsRx) : Prop where
  kBch_eq : rx.bb.kBch = bb.kBch
  dfl_eq : rx.bb.dfl = bb.dfl
  held : RxHeld p s b rx.packet rx.previous rx.packetBits rx.havePrevious

theorem rxAt_iff_over {bb : BbFrameCtx} (p : ℕ → TsPacket) (s b : ℕ) (rx : TsRx) :
    RxAt bb p s b rx ↔ RxOverAt bb (streamFrom p s) b rx :=
  ⟨fun h => ⟨h.kBch_eq, h.dfl_eq, (rxHeld_iff_over p s b _ _ _ _).mp h.held⟩,
    fun h => ⟨h.kBch_eq, h.dfl_eq, (rxHeld_iff_over p s b _ _ _ _).mpr h.held⟩⟩

/-- A receiver that has just been reset can join at any packet. -/
theorem rxAt_reset {bb : BbFrameCtx} (p : ℕ → TsPacket) (s : ℕ) (rx : TsRx)
    (hk : rx.bb.kBch = bb.kBch) (hd : rx.bb.dfl = bb.dfl) : RxAt bb p s 0 (tsRxReset rx) :=
  (rxAt_iff_over p s 0 _).mpr (rxOverAt_reset _ rx hk hd)

/-- The unread part of a transmitted data field, as bits of the stream. -/
theorem fieldBits_drop (p : ℕ → TsPacket) (d j s b start : ℕ)
    (hpos : j * d + start = s * tsPacketBits + b) :
    (fieldBits p d j).drop start
      = (List.range (d - start)).map fun i => streamFrom p s (b + i) := by
  rw [fieldBits]
  apply List.ext_getElem
  · simp
  · intro i h₁ h₂
    simp only [List.getElem_drop, List.getElem_map, List.getElem_range, streamFrom,
      ← Nat.add_assoc, hpos]

/-- **One frame.**  The receiver accepts frame `j`, consumes it from the next unread bit on and
emits the packets that become verified. -/
theorem tsRxPush_spec {bb : BbFrameCtx} (hbb : bb.Valid) {p : ℕ → TsPacket} {s b j : ℕ} {rx : TsRx}
    (h : RxAt bb p s b rx) (start : ℕ) (hpos : j * bb.dfl + start = s * tsPacketBits + b)
    (hstart : if b = 0 then start = syncdAt bb.dfl j else start = 0) (frame : List Bool)
    (hframe : frame.take bb.kBch = frameAt bb p j) (packets : List PacketBuf)
    (packetCapacity : ℕ) (hcap : (bb.dfl + (tsPacketBits - 1)) / tsPacketBits ≤ packetCapacity) :
    let r := tsRxPush rx frame packets packetCapacity
    r.ret = ok ∧ RxAt bb p s (b + (bb.dfl - start)) r.rx ∧
      r.packets.take r.packetCount
        = packetsFrom p (s + verified b) (verified (b + (bb.dfl - start)) - verified b) := by
  have hholds := tsFrame_holds bb (syncdAt bb.dfl j) _ frame (fieldBits_length p bb.dfl j)
    hbb.kBch_eq hbb.kBch_le hframe
  have hover := (rxAt_iff_over p s b rx).mp h
  obtain ⟨hok, -⟩ := tsRxPush_over hbb hover hpos hstart hholds
    (fieldBits_drop p bb.dfl j s b start hpos) packets
    (tsRxNeeded_le hover start |>.trans hcap)
  obtain ⟨l, hpush, hloop, hout⟩ := hok fun k _ _ => rxCheck_streamFrom p s k
  rw [hpush]
  refine ⟨rfl, (rxAt_iff_over p s _ _).mpr ⟨h.kBch_eq, h.dfl_eq, hloop⟩, ?_⟩
  simp only [memcpyAt, List.take_zero, List.nil_append]
  rw [List.take_append_of_le_length le_rfl, List.take_length, hout, chunksFrom_streamFrom]

/-! ### Any stretch of frames -/

/-- A run of the receiver: the context, the packets emitted so far and the return codes. -/
structure TsRxRun where
  rx : TsRx
  packets : List PacketBuf
  rets : List ℤ

/-- Push one frame, with output buffer `out`, and collect the packets emitted. -/
def tsRxRunStep (out : List PacketBuf) (packetCapacity : ℕ) (r : TsRxRun) (frame : List Bool) :
    TsRxRun :=
  let q := tsRxPush r.rx frame out packetCapacity
  { rx := q.rx
    packets := r.packets ++ q.packets.take q.packetCount
    rets := r.rets ++ [q.ret] }

def tsRxRun (out : List PacketBuf) (packetCapacity : ℕ) (rx : TsRx) (frames : List (List Bool)) :
    TsRxRun :=
  frames.foldl (tsRxRunStep out packetCapacity) ⟨rx, [], []⟩

/-- The packet at which a receiver joins that is first fed frame `j`. -/
def joinPacket (d j : ℕ) : ℕ := (j * d + (tsPacketBits - 1)) / tsPacketBits

theorem joinPacket_mul (d j : ℕ) :
    joinPacket d j * tsPacketBits = j * d + syncdAt d j := by
  rw [add_syncdAt, joinPacket, Nat.mul_comm]

/-- **Any stretch of frames.**  A receiver that has been reset and is fed frames
`j, j + 1, ..., j + m - 1` accepts them all and emits the packets verified by them. -/
theorem tsRxRun_spec {bb : BbFrameCtx} (hbb : bb.Valid) (p : ℕ → TsPacket) (j : ℕ) (rx : TsRx)
    (out : List PacketBuf) (packetCapacity : ℕ)
    (hcap : (bb.dfl + (tsPacketBits - 1)) / tsPacketBits ≤ packetCapacity)
    (h : RxAt bb p (joinPacket bb.dfl j) 0 rx) (m : ℕ) :
    let b := (j + m) * bb.dfl - joinPacket bb.dfl j * tsPacketBits
    let r := tsRxRun out packetCapacity rx ((List.range m).map fun i => frameAt bb p (j + i))
    RxAt bb p (joinPacket bb.dfl j) b r.rx ∧ r.rets = List.replicate m ok ∧
      r.packets = packetsFrom p (joinPacket bb.dfl j) (verified b) := by
  set s := joinPacket bb.dfl j with hs
  have hjoin : s * tsPacketBits = j * bb.dfl + syncdAt bb.dfl j := joinPacket_mul _ _
  induction m with
  | zero =>
    have hz : (j + 0) * bb.dfl - s * tsPacketBits = 0 := by rw [Nat.add_zero]; omega
    simp only [hz]
    exact ⟨h, rfl, rfl⟩
  | succ m ih =>
    obtain ⟨hrx, hrets, hpackets⟩ := ih
    set b := (j + m) * bb.dfl - s * tsPacketBits with hb
    simp only [tsRxRun, List.range_succ, List.map_append, List.map_singleton,
      List.foldl_append, List.foldl_cons, List.foldl_nil]
    rw [← tsRxRun]
    set r := tsRxRun out packetCapacity rx ((List.range m).map fun i => frameAt bb p (j + i))
    have hsync := syncdAt_lt bb.dfl j
    have hlt := hbb.packet_lt
    have hnext : (j + (m + 1)) * bb.dfl = (j + m) * bb.dfl + bb.dfl := by ring
    -- where reading starts in frame `j + m`
    obtain ⟨start, hpos, hstart, hle⟩ : ∃ start,
        (j + m) * bb.dfl + start = s * tsPacketBits + b ∧
        (if b = 0 then start = syncdAt bb.dfl (j + m) else start = 0) ∧ start ≤ bb.dfl := by
      rcases Nat.eq_zero_or_pos m with rfl | hm
      · refine ⟨syncdAt bb.dfl j, ?_, ?_, by omega⟩
        · rw [hb, Nat.add_zero]
          omega
        · rw [if_pos (by rw [hb, Nat.add_zero]; omega), Nat.add_zero]
      · have hge : j * bb.dfl + bb.dfl ≤ (j + m) * bb.dfl := by
          rw [Nat.add_mul]
          exact Nat.add_le_add_left (Nat.le_mul_of_pos_left _ hm) _
        exact ⟨0, by omega, by rw [if_neg (by omega)], Nat.zero_le _⟩
    obtain ⟨hret, hrx', hout⟩ := tsRxPush_spec hbb hrx start hpos hstart (frameAt bb p (j + m))
      (frameAt_take hbb p (j + m)) out packetCapacity hcap
    have hb' : (j + (m + 1)) * bb.dfl - s * tsPacketBits = b + (bb.dfl - start) := by omega
    have hmono : verified b ≤ verified (b + (bb.dfl - start)) :=
      Nat.sub_le_sub_right (Nat.div_le_div_right (Nat.le_add_right _ _)) 1
    rw [hb']
    refine ⟨hrx', ?_, ?_⟩
    · simp only [tsRxRunStep, hret, hrets, List.replicate_succ']
    · simp only [tsRxRunStep, hout, hpackets]
      rw [packetsFrom_append, Nat.add_sub_cancel' hmono]

/-- What the receiver still holds at the end of a stream is the last complete packet. -/
theorem tsRxFinalize_spec {bb : BbFrameCtx} {p : ℕ → TsPacket} {s b : ℕ} {rx : TsRx}
    (h : RxAt bb p s b rx) (out : List PacketBuf) :
    let q := tsRxFinalizeUnchecked rx out 1
    q.ret = ok ∧ packetsFrom p s (verified b) ++ q.packets.take q.packetCount
      = packetsFrom p s (b / tsPacketBits) := by
  unfold tsRxFinalizeUnchecked
  rw [if_neg (by simp)]
  rcases Nat.eq_zero_or_pos (b / tsPacketBits) with hz | hpos
  · have hno : rx.havePrevious = false := by rw [h.held.have_iff, hz]; rfl
    rw [if_neg (by simp [hno])]
    simp [verified, hz, packetsFrom]
  · have hyes : rx.havePrevious = true := by rw [h.held.have_iff]; simpa using hpos
    rw [if_pos (by simp [hyes])]
    refine ⟨rfl, ?_⟩
    rw [show b / tsPacketBits = verified b + 1 by simp only [verified]; omega, packetsFrom_succ,
      h.held.previous_eq hpos]
    simp [memcpyAt, show s + b / tsPacketBits - 1 = s + verified b by simp only [verified]; omega]

/-- **What a stretch of frames recovers.**  A receiver that has been reset, fed the `m` frames
from frame `j` on and then finalized yields every packet from the join packet up to the last
one that is complete by the end of the stretch. -/
theorem tsRxRun_recovers {bb : BbFrameCtx} (hbb : bb.Valid) (p : ℕ → TsPacket) (j m : ℕ)
    (hm : 0 < m) (rx : TsRx) (out : List PacketBuf) (packetCapacity : ℕ)
    (hcap : (bb.dfl + (tsPacketBits - 1)) / tsPacketBits ≤ packetCapacity)
    (h : RxAt bb p (joinPacket bb.dfl j) 0 rx) :
    let r := tsRxRun out packetCapacity rx ((List.range m).map fun i => frameAt bb p (j + i))
    let q := tsRxFinalizeUnchecked r.rx out 1
    (∀ ret ∈ r.rets, ret = ok) ∧ q.ret = ok ∧
      joinPacket bb.dfl j ≤ (j + m) * bb.dfl / tsPacketBits ∧
      r.packets ++ q.packets.take q.packetCount
        = packetsFrom p (joinPacket bb.dfl j)
            ((j + m) * bb.dfl / tsPacketBits - joinPacket bb.dfl j) := by
  obtain ⟨hend, hrets, hpackets⟩ := tsRxRun_spec hbb p j rx out packetCapacity hcap h m
  obtain ⟨hret, hfin⟩ := tsRxFinalize_spec hend out
  have hjoin := joinPacket_mul bb.dfl j
  have hsync := syncdAt_lt bb.dfl j
  have hlt := hbb.packet_lt
  have hge : j * bb.dfl + bb.dfl ≤ (j + m) * bb.dfl := by
    rw [Nat.add_mul]
    exact Nat.add_le_add_left (Nat.le_mul_of_pos_left _ hm) _
  set s := joinPacket bb.dfl j
  set b := (j + m) * bb.dfl - s * tsPacketBits with hb
  have hsum : (j + m) * bb.dfl = b + s * tsPacketBits := by omega
  have hdiv : (j + m) * bb.dfl / tsPacketBits = b / tsPacketBits + s := by
    rw [hsum, Nat.add_mul_div_right _ _ (by decide)]
  refine ⟨?_, hret, by rw [hdiv]; exact Nat.le_add_left _ _, ?_⟩
  · rw [hrets]
    intro ret hmem
    exact List.eq_of_mem_replicate hmem
  · rw [hpackets, hfin, hdiv, Nat.add_sub_cancel]

/-! ### The nine MODCODs -/

/-- The transmit context of a MODCOD. -/
def tsContext (mc : Modcod) (ro : Byte) : BbFrameCtx :=
  { bbFrameInit mc .ts with upl := tsPacketBits, ro := ro }

theorem tsContext_dfl {mc : Modcod} (hmc : mc ∈ vlsnrModcodTable) (ro : Byte) :
    (tsContext mc ro).dfl = mc.kBch - bbHeaderBits := by
  obtain ⟨_, hk, -⟩ := modcod_geometry mc hmc
  refine Nat.mod_eq_of_lt ?_
  simp only [ldpcNormal] at hk
  omega

theorem tsContext_valid {mc : Modcod} (hmc : mc ∈ vlsnrModcodTable) (ro : Byte) :
    (tsContext mc ro).Valid := by
  obtain ⟨hlow, hk, -⟩ := modcod_geometry mc hmc
  have hd := tsContext_dfl hmc ro
  refine ⟨?_, ?_, hk⟩
  · rw [hd]
    simp only [tsContext, bbFrameInit, bbHeaderBits]
    omega
  · rw [hd]
    simp only [tsPacketBits, bbHeaderBits]
    omega

/-- A fresh transmitter has sent nothing of any stream. -/
theorem tsTxInit_eq {mc : Modcod} {ro : Byte} {tx : TsTx} (h : tsTxInit mc ro = .ok tx)
    (p : ℕ → TsPacket) : tx = txAfter (tsContext mc ro) p 0 := by
  unfold tsTxInit at h
  split at h
  · cases h
  · cases h
    simp [txAt, tsContext, syncdAt, markerOf]

/-- A list of packets as a stream, with `fill` ever after. -/
def packetAt (fill : TsPacket) (ps : List TsPacket) (k : ℕ) : TsPacket := ps.getD k fill

theorem map_packetAt (fill : TsPacket) (ps : List TsPacket) :
    (List.range ps.length).map (fun k => (packetAt fill ps k).bytes)
      = ps.map TsPacket.bytes := by
  apply List.ext_getElem
  · simp
  · intro i h₁ h₂
    simp only [List.length_map, List.length_range] at h₁
    simp [packetAt, List.getD_eq_getElem?_getD, h₁]

theorem packetsFrom_packetAt (fill : TsPacket) (ps : List TsPacket) (s m : ℕ)
    (h : s + m ≤ ps.length) :
    packetsFrom (packetAt fill ps) s m = ((ps.drop s).take m).map TsPacket.bytes := by
  apply List.ext_getElem
  · simp [packetsFrom]
    omega
  · intro i h₁ h₂
    have hi : i < m := by simpa [packetsFrom] using h₁
    have : s + i < ps.length := by omega
    simp [packetsFrom, packetAt, List.getD_eq_getElem?_getD, this]

/-- The frames that a fresh transmitter emits for the packets `ps`. -/
theorem tsTxRun_frames {mc : Modcod} (hmc : mc ∈ vlsnrModcodTable) {ro : Byte} {tx : TsTx}
    (htx : tsTxInit mc ro = .ok tx) (ps : List TsPacket) (buf : List Bool) {frameCapacity : ℕ}
    (hfc : mc.kBch ≤ frameCapacity) :
    (tsTxRun frameCapacity tx buf (ps.map TsPacket.bytes)).frames
      = (List.range (ps.length * tsPacketBits / (mc.kBch - bbHeaderBits))).map
          (frameAt (tsContext mc ro) (packetAt default ps)) := by
  obtain ⟨-, h, -⟩ := tsTxRun_spec (tsContext_valid hmc ro) (packetAt default ps) buf
    frameCapacity hfc ps.length
  rw [tsTxInit_eq htx (packetAt default ps), ← map_packetAt, h, tsContext_dfl hmc ro]

/-- A receiver that is fresh or has just been reset holds nothing. -/
theorem rxOverAt_fresh {mc : Modcod} (ro : Byte) (t : ℕ → Bool) {rx : TsRx}
    (hrx : rx = tsRxInit mc ∨ ∃ r : TsRx, r.bb = (tsRxInit mc).bb ∧ rx = tsRxReset r) :
    RxOverAt (tsContext mc ro) t 0 rx := by
  obtain rfl | ⟨r, hr, rfl⟩ := hrx
  · exact rxOverAt_reset t (tsRxInit mc) rfl rfl
  · exact rxOverAt_reset t r (by rw [hr]; rfl) (by rw [hr]; rfl)

/-- **The MPEG-TS round trip, from any join point.**  The frames `f j, ..., f l` that a fresh
transmitter emits for the packets `ps`, fed to a receiver that is fresh or has just been reset,
are all accepted, and the packets emitted, followed by the one handed out at the end, are the
packets `s, ..., e - 1`: the first that starts at or after bit `j * D` up to the last that
ends in frame `l`. -/
theorem tsRoundTrip (mc : Modcod) (hmc : mc ∈ vlsnrModcodTable) (ro : Byte) (tx : TsTx)
    (htx : tsTxInit mc ro = .ok tx) (ps : List TsPacket) (buf : List Bool) (frameCapacity : ℕ)
    (hfc : mc.kBch ≤ frameCapacity) (rx : TsRx)
    (hrx : rx = tsRxInit mc ∨ ∃ r : TsRx, r.bb = (tsRxInit mc).bb ∧ rx = tsRxReset r)
    (out : List PacketBuf) (packetCapacity : ℕ) (d : ℕ) (hd : d = mc.kBch - bbHeaderBits)
    (hpc : (d + (tsPacketBits - 1)) / tsPacketBits ≤ packetCapacity)
    (f : List (List Bool)) (hf : f = (tsTxRun frameCapacity tx buf (ps.map TsPacket.bytes)).frames)
    (j l : ℕ) (hjl : j ≤ l) (hl : l < f.length) :
    let r := tsRxRun out packetCapacity rx ((f.drop j).take (l + 1 - j))
    let q := tsRxFinalizeUnchecked r.rx out 1
    ∃ s e, IsLeast {k | j * d ≤ k * tsPacketBits} s ∧
      IsGreatest {k | k * tsPacketBits ≤ (l + 1) * d} e ∧ l * d < e * tsPacketBits ∧
      (∀ ret ∈ r.rets, ret = ok) ∧ q.ret = ok ∧
      r.packets ++ q.packets.take q.packetCount
        = ((ps.drop s).take (e - s)).map TsPacket.bytes := by
  have hbb := tsContext_valid hmc ro
  have hdfl : (tsContext mc ro).dfl = d := by rw [tsContext_dfl hmc ro, hd]
  set bb := tsContext mc ro with hbbdef
  set p := packetAt default ps with hp
  -- the transmitted frames
  have hframes : f = (List.range (ps.length * tsPacketBits / d)).map (frameAt bb p) := by
    rw [hf, tsTxRun_frames hmc htx ps buf hfc, hd]
  have hlen : f.length = ps.length * tsPacketBits / d := by rw [hframes]; simp
  have hpart : (f.drop j).take (l + 1 - j)
      = (List.range (l + 1 - j)).map fun i => frameAt bb p (j + i) := by
    apply List.ext_getElem
    · simp
      omega
    · intro i h₁ h₂
      simp [hframes]
  have hat : RxAt bb p (joinPacket d j) 0 rx :=
    (rxAt_iff_over p _ 0 rx).mpr (rxOverAt_fresh ro _ hrx)
  have hrun := tsRxRun_recovers hbb p j (l + 1 - j) (by omega) rx out packetCapacity
    (by rw [hdfl]; exact hpc) (by rw [hdfl]; exact hat)
  rw [hdfl, ← hpart, show j + (l + 1 - j) = l + 1 by omega] at hrun
  obtain ⟨hrets, hret, hse, hpackets⟩ := hrun
  -- the packets recovered
  have hjoin := joinPacket_mul d j
  have hsync := syncdAt_lt d j
  have hdlt : tsPacketBits < d := by rw [← hdfl]; exact hbb.packet_lt
  have hbits : (l + 1) * d ≤ ps.length * tsPacketBits := by
    have h₁ : l + 1 ≤ ps.length * tsPacketBits / d := by omega
    calc (l + 1) * d ≤ ps.length * tsPacketBits / d * d := Nat.mul_le_mul_right _ h₁
      _ ≤ ps.length * tsPacketBits := Nat.div_mul_le_self _ _
  set s := joinPacket d j
  set e := (l + 1) * d / tsPacketBits with he
  have he₁ : e * tsPacketBits ≤ (l + 1) * d := Nat.div_mul_le_self _ _
  have he₂ : (l + 1) * d < e * tsPacketBits + tsPacketBits :=
    Nat.lt_div_mul_add (by decide)
  have hel : e ≤ ps.length :=
    Nat.le_of_mul_le_mul_right (le_trans he₁ hbits) (by decide)
  refine ⟨s, e, ⟨?_, ?_⟩, ⟨he₁, ?_⟩, ?_, hrets, hret, ?_⟩
  · show j * d ≤ s * tsPacketBits
    omega
  · intro k hk
    have hk : j * d ≤ k * tsPacketBits := hk
    by_contra hlt
    have : (k + 1) * tsPacketBits ≤ s * tsPacketBits := Nat.mul_le_mul_right _ (by omega)
    rw [Nat.add_one_mul] at this
    omega
  · intro k hk
    exact (Nat.le_div_iff_mul_le (by decide)).mpr hk
  · have hll : (l + 1) * d = l * d + d := Nat.add_one_mul l d
    omega
  · rw [hpackets, packetsFrom_packetAt default ps s _ (by omega)]

/-- Two packets through the spread short frame: one frame, which holds the whole of packet 0. -/
theorem tsRoundTrip_two :
    let mc := vlsnrModcodTable[4]
    let ps : List TsPacket := [default, default]
    let f := (tsTxRun 2512 ⟨tsContext mc 0, [], 0, 0⟩ [] (ps.map TsPacket.bytes)).frames
    let r := tsRxRun [] 3 (tsRxInit mc) ((f.drop 0).take (0 + 1 - 0))
    let q := tsRxFinalizeUnchecked r.rx [] 1
    ∃ s e, IsLeast {k | 0 * 2432 ≤ k * tsPacketBits} s ∧
      IsGreatest {k | k * tsPacketBits ≤ (0 + 1) * 2432} e ∧ 0 * 2432 < e * tsPacketBits ∧
      (∀ ret ∈ r.rets, ret = ok) ∧ q.ret = ok ∧
      r.packets ++ q.packets.take q.packetCount
        = ((ps.drop s).take (e - s)).map TsPacket.bytes := by
  have hmc : vlsnrModcodTable[4] ∈ vlsnrModcodTable := List.getElem_mem _
  have hinit : tsTxInit vlsnrModcodTable[4] 0
      = .ok ⟨tsContext vlsnrModcodTable[4] 0, [], 0, 0⟩ := rfl
  refine tsRoundTrip _ hmc 0 _ hinit [default, default] [] 2512 (by decide) _ (Or.inl rfl) [] 3
    2432 rfl (by decide) _ rfl 0 0 le_rfl ?_
  rw [tsTxRun_frames hmc hinit [default, default] [] (by decide), List.length_map,
    List.length_range]
  decide

end OpenVlsnr
