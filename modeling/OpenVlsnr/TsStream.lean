import OpenVlsnr.BbFrameBits

/-!
# The packet bit stream and the transmitter

What mode adaptation is for: packets `p 0, p 1, ...` form one endless bit stream
(`streamBit`), in which the sync byte of each packet is replaced by the CRC of the packet
before it, and frame `j` carries bits `j * D .. (j + 1) * D` of that stream (`fieldBits`)
under a header that says where in the field the next packet starts (`syncdAt`).

The transmitter is shown to produce exactly that: `tsTxPush_spec` for one packet, by
induction over the packet's bits, and `tsTxRun_spec` for any number of packets.
-/

namespace OpenVlsnr

/-! ### Packets and their bit stream -/

/-- A transport packet: 188 bytes that start with the sync byte. -/
structure TsPacket where
  bytes : PacketBuf
  sync : bytes[0] = 0x47

theorem replicate_set_sync :
    ((Vector.replicate tsPacketSize (0 : Byte)).set 0 0x47 tsPacketSize_pos)[0] = 0x47 := by
  simp

instance : Inhabited TsPacket :=
  ⟨⟨(Vector.replicate tsPacketSize 0).set 0 0x47 tsPacketSize_pos, replicate_set_sync⟩⟩

/-- The byte sent in place of the sync byte of packet `k`. -/
def markerOf (p : ℕ → TsPacket) (k : ℕ) : Byte := if k = 0 then 0 else packetCrc (p (k - 1)).bytes

/-- Byte `b` of packet `k` as it is sent. -/
def streamByte (p : ℕ → TsPacket) (k b : ℕ) : Byte :=
  if b = 0 then markerOf p k else (p k).bytes.toList.getD b 0

/-- Bit `g` of the packet bit stream. -/
def streamBit (p : ℕ → TsPacket) (g : ℕ) : Bool :=
  (streamByte p (g / tsPacketBits) (g % tsPacketBits / 8)).getLsbD (7 - g % 8)

/-- The data field of frame `j`, for data fields of `d` bits. -/
def fieldBits (p : ℕ → TsPacket) (d j : ℕ) : List Bool :=
  (List.range d).map fun i => streamBit p (j * d + i)

/-- The distance from the start of frame `j` to the first packet that starts in it. -/
def syncdAt (d j : ℕ) : ℕ := (tsPacketBits - j * d % tsPacketBits) % tsPacketBits

/-- Frame `j` of the stream. -/
def frameAt (bb : BbFrameCtx) (p : ℕ → TsPacket) (j : ℕ) : List Bool :=
  tsFrameBits bb (syncdAt bb.dfl j) (fieldBits p bb.dfl j)

/-- The geometry the TS code relies on: header and data field fill the frame, a data field
holds more than one packet, and the frame fits the local buffer. -/
structure BbFrameCtx.Valid (bb : BbFrameCtx) : Prop where
  kBch_eq : bb.kBch = bbHeaderBits + bb.dfl
  packet_lt : tsPacketBits < bb.dfl
  kBch_le : bb.kBch ≤ ldpcNormal

theorem fieldBits_length (p : ℕ → TsPacket) (d j : ℕ) : (fieldBits p d j).length = d := by
  simp [fieldBits]

theorem frameAt_length {bb : BbFrameCtx} (hbb : bb.Valid) (p : ℕ → TsPacket) (j : ℕ) :
    (frameAt bb p j).length = bb.kBch := by
  rw [frameAt, tsFrameBits, bbScrambleFrom_length, List.length_append, flatMap_byteBits_length,
    bbHeaderBytes_length, fieldBits_length, hbb.kBch_eq]

theorem frameAt_take {bb : BbFrameCtx} (hbb : bb.Valid) (p : ℕ → TsPacket) (j : ℕ) :
    (frameAt bb p j).take bb.kBch = frameAt bb p j :=
  List.take_of_length_le (frameAt_length hbb p j).le

theorem syncdAt_lt (d j : ℕ) : syncdAt d j < tsPacketBits := Nat.mod_lt _ (by decide)

/-- The first packet boundary at or after a position. -/
theorem add_syncdAt (d j : ℕ) :
    j * d + syncdAt d j = tsPacketBits * ((j * d + (tsPacketBits - 1)) / tsPacketBits) := by
  simp only [syncdAt, tsPacketBits]
  omega

/-! ### Counting in blocks -/

/-- The step that completes a block. -/
theorem succ_of_full {g d : ℕ} (h : g % d + 1 = d) :
    (g + 1) % d = 0 ∧ (g + 1) / d = g / d + 1 := by
  have hd : 0 < d := by omega
  have hsucc : g + 1 = d * (g / d + 1) := by
    have := Nat.div_add_mod g d
    rw [Nat.mul_succ]
    omega
  rw [hsucc, Nat.mul_mod_right, Nat.mul_div_cancel_left _ hd]
  exact ⟨rfl, rfl⟩

/-- A step inside a block. -/
theorem succ_of_not_full {g d : ℕ} (hd : 0 < d) (h : g % d + 1 ≠ d) :
    (g + 1) % d = g % d + 1 ∧ (g + 1) / d = g / d := by
  have hlt := Nat.mod_lt g hd
  have hmod : (g + 1) % d = g % d + 1 := by
    rw [← Nat.mod_add_mod, Nat.mod_eq_of_lt (by omega)]
  refine ⟨hmod, Nat.eq_of_mul_eq_mul_left hd ?_⟩
  have h₁ := Nat.div_add_mod (g + 1) d
  have h₂ := Nat.div_add_mod g d
  omega

/-- A block completed after fewer than `d` further steps is the one they started in. -/
theorem block_of_full {g m d : ℕ} (h : (g + m) % d + 1 = d) (hm : m < d) :
    g / d = (g + m) / d := by
  have hdm := Nat.div_add_mod (g + m) d
  refine Nat.div_eq_of_lt_le ?_ ?_
  · rw [Nat.mul_comm]
    omega
  · rw [Nat.succ_mul, Nat.mul_comm]
    omega

/-! ### One packet through the transmitter -/

/-- The transmitter after `g` bits, the first `n` packets having been completed. -/
def txAt (bb : BbFrameCtx) (p : ℕ → TsPacket) (n g : ℕ) : TsTx where
  bb := bb
  dataBits := (List.range (g % bb.dfl)).map fun i => streamBit p (g / bb.dfl * bb.dfl + i)
  syncd := syncdAt bb.dfl (g / bb.dfl)
  previousCrc := markerOf p n

/-- The transmitter after `n` packets. -/
abbrev txAfter (bb : BbFrameCtx) (p : ℕ → TsPacket) (n : ℕ) : TsTx :=
  txAt bb p n (n * tsPacketBits)

/-- What a push has put into the frame buffer once it has sent the bits from `g₀` to `g`:
nothing, or the one frame that filled up on the way. -/
def FrameOut (bb : BbFrameCtx) (p : ℕ → TsPacket) (buf : List Bool) (g₀ g : ℕ)
    (bbframe : List Bool) (frameLen : ℕ) : Prop :=
  if g₀ / bb.dfl = g / bb.dfl then bbframe = buf ∧ frameLen = 0
  else bbframe.take bb.kBch = frameAt bb p (g₀ / bb.dfl) ∧ frameLen = bb.kBch

/-- The bit the loop appends in iteration `i` is the next bit of the stream. -/
theorem pushed_bit (p : ℕ → TsPacket) (n i : ℕ) (hi : i < tsPacketBits) :
    (if i < 8 then markerOf p n else (p n).bytes.toList.getD (i / 8) 0).getLsbD (7 - i % 8)
      = streamBit p (n * tsPacketBits + i) := by
  simp only [tsPacketBits] at hi ⊢
  have hdiv : (n * 1504 + i) / 1504 = n := by omega
  have hmod : (n * 1504 + i) % 1504 = i := by omega
  have hmod8 : (n * 1504 + i) % 8 = i % 8 := by omega
  simp only [streamBit, streamByte, tsPacketBits, hdiv, hmod, hmod8]
  by_cases h : i < 8
  · rw [if_pos h, if_pos (by omega)]
  · rw [if_neg h, if_neg (by omega)]

/-- Appending the next stream bit to the pending ones. -/
theorem pending_snoc (p : ℕ → TsPacket) (d g : ℕ) :
    ((List.range (g % d)).map fun i => streamBit p (g / d * d + i)) ++ [streamBit p g]
      = (List.range (g % d + 1)).map fun i => streamBit p (g / d * d + i) := by
  rw [List.range_succ, List.map_append, List.map_singleton, Nat.div_add_mod' g d]

/-- The `syncd` left for the next frame when bit `i` of a packet completes a data field. -/
theorem syncd_next (d n i : ℕ) (hi : i < tsPacketBits)
    (hfull : (n * tsPacketBits + i + 1) % d = 0) :
    (if i + 1 = tsPacketBits then 0 else tsPacketBits - i - 1)
      = syncdAt d ((n * tsPacketBits + i + 1) / d) := by
  have hmul : (n * tsPacketBits + i + 1) / d * d = n * tsPacketBits + i + 1 :=
    Nat.div_mul_cancel (Nat.dvd_of_mod_eq_zero hfull)
  rw [syncdAt, hmul]
  by_cases hlast : i + 1 = tsPacketBits
  · rw [if_pos hlast]
    simp only [tsPacketBits] at hlast ⊢
    omega
  · rw [if_neg hlast]
    simp only [tsPacketBits] at hi hlast ⊢
    omega

/-- **One bit.**  Iteration `i` moves the transmitter one stream position on; it fills the
frame buffer exactly when the data field is complete. -/
theorem tsTxPushBit_spec {bb : BbFrameCtx} (hbb : bb.Valid) (p : ℕ → TsPacket) (n i : ℕ)
    (hi : i < tsPacketBits) (s : TsTxPush) (hs : s.tx = txAt bb p n (n * tsPacketBits + i)) :
    (tsTxPushBit (p n).bytes s i).tx = txAt bb p n (n * tsPacketBits + (i + 1)) ∧
      if (n * tsPacketBits + i + 1) % bb.dfl = 0 then
        (tsTxPushBit (p n).bytes s i).bbframe.take bb.kBch
            = frameAt bb p ((n * tsPacketBits + i) / bb.dfl) ∧
          (tsTxPushBit (p n).bytes s i).frameLen = bb.kBch
      else (tsTxPushBit (p n).bytes s i).bbframe = s.bbframe ∧
        (tsTxPushBit (p n).bytes s i).frameLen = s.frameLen := by
  obtain ⟨tx, bbframe, frameLen⟩ := s
  subst hs
  have hd : 0 < bb.dfl := lt_trans (by decide) hbb.packet_lt
  set g := n * tsPacketBits + i with hg
  have hbit : ((if i < 8 then (txAt bb p n g).previousCrc
      else (p n).bytes.toList.getD (i / 8) 0).getLsbD (7 - i % 8)) = streamBit p g :=
    pushed_bit p n i hi
  simp only [tsTxPushBit, hbit]
  rw [show (txAt bb p n g).dataBits = (List.range (g % bb.dfl)).map
    fun j => streamBit p (g / bb.dfl * bb.dfl + j) from rfl, pending_snoc, List.length_map,
    List.length_range, show (txAt bb p n g).bb = bb from rfl]
  by_cases hfull : g % bb.dfl + 1 = bb.dfl
  · obtain ⟨hmod, hdiv⟩ := succ_of_full hfull
    rw [if_neg (by simpa using hfull), if_pos hmod, hfull]
    refine ⟨?_, ?_, rfl⟩
    · rw [syncd_next bb.dfl n i hi hmod, ← Nat.add_assoc, ← hg]
      simp only [txAt, hmod, List.range_zero, List.map_nil]
    · rw [tsTxFrame_take _ _ _ _ (by simp) hbb.kBch_eq]
      rfl
  · obtain ⟨hmod, hdiv⟩ := succ_of_not_full hd hfull
    rw [if_pos (by simpa using hfull), if_neg (by rw [hmod]; omega)]
    refine ⟨?_, rfl, rfl⟩
    rw [← Nat.add_assoc, ← hg]
    simp only [txAt, hmod, hdiv]

/-- The loop over a packet's bits, after `m` of them.  At most one data field fills up on the
way because it is longer than a packet. -/
theorem tsTxPushBits_spec {bb : BbFrameCtx} (hbb : bb.Valid) (p : ℕ → TsPacket) (n : ℕ)
    (buf : List Bool) (m : ℕ) (hm : m ≤ tsPacketBits) :
    let s := (List.range m).foldl (tsTxPushBit (p n).bytes) ⟨txAfter bb p n, buf, 0⟩
    s.tx = txAt bb p n (n * tsPacketBits + m) ∧
      FrameOut bb p buf (n * tsPacketBits) (n * tsPacketBits + m) s.bbframe s.frameLen := by
  induction m with
  | zero =>
    simp only [List.range_zero, List.foldl_nil, Nat.add_zero, FrameOut, if_true]
    exact ⟨trivial, trivial, trivial⟩
  | succ m ih =>
    obtain ⟨htx, hout⟩ := ih (by omega)
    simp only [List.range_succ, List.foldl_append, List.foldl_cons, List.foldl_nil]
    set s := (List.range m).foldl (tsTxPushBit (p n).bytes) ⟨txAfter bb p n, buf, 0⟩
    obtain ⟨htx', hstep⟩ := tsTxPushBit_spec hbb p n m (by omega) s htx
    refine ⟨htx', ?_⟩
    have hd : 0 < bb.dfl := lt_trans (by decide) hbb.packet_lt
    rw [FrameOut] at hout ⊢
    rw [← Nat.add_assoc]
    by_cases hfull : (n * tsPacketBits + m) % bb.dfl + 1 = bb.dfl
    · -- the frame that fills up now is the first one of this push
      obtain ⟨hmod, hdiv⟩ := succ_of_full hfull
      have hsame := block_of_full hfull (lt_of_lt_of_le hm hbb.packet_lt.le)
      rw [if_pos hmod] at hstep
      rw [if_neg (by rw [hdiv, hsame]; omega), hsame]
      exact hstep
    · obtain ⟨hmod, hdiv⟩ := succ_of_not_full hd hfull
      rw [if_neg (by rw [hmod]; omega)] at hstep
      rw [hdiv, hstep.1, hstep.2]
      exact hout

/-- A push that passes its argument checks runs the loop and records the packet's CRC. -/
theorem tsTxPush_eq (tx : TsTx) (packet : PacketBuf) (buf : List Bool) (frameCapacity : ℕ)
    (s : TsTxPush) (hs : tsTxPushBits packet ⟨tx, buf, 0⟩ = s) (hsync : packet[0] = 0x47)
    (hcap : tx.bb.kBch ≤ frameCapacity) :
    tsTxPush tx packet buf frameCapacity =
      (ok, ⟨{ s.tx with previousCrc := packetCrc packet }, s.bbframe, s.frameLen⟩) := by
  unfold tsTxPush
  rw [if_neg (not_not.mpr hsync), if_neg (by omega), hs]

/-- The loop run to its end. -/
theorem tsTxPushBits_full {bb : BbFrameCtx} (hbb : bb.Valid) (p : ℕ → TsPacket) (n : ℕ)
    (buf : List Bool) :
    ∃ s, tsTxPushBits (p n).bytes ⟨txAfter bb p n, buf, 0⟩ = s ∧
      s.tx = txAt bb p n ((n + 1) * tsPacketBits) ∧
      FrameOut bb p buf (n * tsPacketBits) ((n + 1) * tsPacketBits) s.bbframe s.frameLen := by
  have hloop := tsTxPushBits_spec hbb p n buf tsPacketBits le_rfl
  rw [← tsTxPushBits] at hloop
  generalize tsTxPushBits (p n).bytes ⟨txAfter bb p n, buf, 0⟩ = s at hloop
  rw [Nat.add_one_mul]
  exact ⟨s, rfl, hloop⟩

/-- **One packet.**  Pushing packet `n` succeeds, leaves the transmitter after `n + 1` packets
and emits the frame that became complete, if any. -/
theorem tsTxPush_spec {bb : BbFrameCtx} (hbb : bb.Valid) (p : ℕ → TsPacket) (n : ℕ)
    (buf : List Bool) (frameCapacity : ℕ) (hcap : bb.kBch ≤ frameCapacity) :
    let r := tsTxPush (txAfter bb p n) (p n).bytes buf frameCapacity
    r.1 = ok ∧ r.2.tx = txAfter bb p (n + 1) ∧
      FrameOut bb p buf (n * tsPacketBits) ((n + 1) * tsPacketBits) r.2.bbframe r.2.frameLen := by
  obtain ⟨s, hs, htx, hout⟩ := tsTxPushBits_full hbb p n buf
  rw [tsTxPush_eq _ _ _ _ s hs (p n).sync hcap]
  refine ⟨rfl, ?_, hout⟩
  rw [htx]
  simp only [txAt, markerOf, Nat.succ_ne_zero, if_false, Nat.add_sub_cancel]

/-! ### Any number of packets -/

/-- A run of the transmitter: the context, the frame buffer, the frames emitted so far and the
return codes. -/
structure TsTxRun where
  tx : TsTx
  bbframe : List Bool
  frames : List (List Bool)
  rets : List ℤ

/-- Push one packet and collect the frame, if one was emitted. -/
def tsTxRunStep (frameCapacity : ℕ) (r : TsTxRun) (packet : PacketBuf) : TsTxRun :=
  let s := tsTxPush r.tx packet r.bbframe frameCapacity
  { tx := s.2.tx
    bbframe := s.2.bbframe
    frames := r.frames ++ if s.2.frameLen ≠ 0 then [s.2.bbframe.take s.2.frameLen] else []
    rets := r.rets ++ [s.1] }

def tsTxRun (frameCapacity : ℕ) (tx : TsTx) (bbframe : List Bool) (packets : List PacketBuf) :
    TsTxRun :=
  packets.foldl (tsTxRunStep frameCapacity) ⟨tx, bbframe, [], []⟩

/-- The number of frames that a push crosses: none or one. -/
theorem push_crosses {d : ℕ} (hd : tsPacketBits < d) (n : ℕ) :
    (n + 1) * tsPacketBits / d = n * tsPacketBits / d ∨
      (n + 1) * tsPacketBits / d = n * tsPacketBits / d + 1 := by
  have h₁ : n * tsPacketBits / d ≤ (n + 1) * tsPacketBits / d :=
    Nat.div_le_div_right (Nat.mul_le_mul_right _ (Nat.le_succ n))
  have h₂ : (n + 1) * tsPacketBits / d ≤ (n * tsPacketBits + d) / d :=
    Nat.div_le_div_right (by rw [Nat.succ_mul]; omega)
  rw [Nat.add_div_right _ (by omega)] at h₂
  omega

/-- **Any number of packets.**  After `n` packets the transmitter has emitted the first
`n * 1504 / D` frames of the stream, in order, and nothing else. -/
theorem tsTxRun_spec {bb : BbFrameCtx} (hbb : bb.Valid) (p : ℕ → TsPacket) (buf : List Bool)
    (frameCapacity : ℕ) (hcap : bb.kBch ≤ frameCapacity) (n : ℕ) :
    let r := tsTxRun frameCapacity (txAfter bb p 0) buf ((List.range n).map fun k => (p k).bytes)
    r.tx = txAfter bb p n ∧
      r.frames = (List.range (n * tsPacketBits / bb.dfl)).map (frameAt bb p) ∧
      r.rets = List.replicate n ok := by
  induction n with
  | zero => simp [tsTxRun]
  | succ n ih =>
    obtain ⟨htx, hframes, hrets⟩ := ih
    simp only [tsTxRun, List.range_succ, List.map_append, List.map_singleton,
      List.foldl_append, List.foldl_cons, List.foldl_nil]
    rw [← tsTxRun]
    set r := tsTxRun frameCapacity (txAfter bb p 0) buf ((List.range n).map fun k => (p k).bytes)
    obtain ⟨hret, htx', hout⟩ := tsTxPush_spec hbb p n r.bbframe frameCapacity hcap
    simp only [tsTxRunStep, htx, hframes, hrets, hret, htx', List.replicate_succ']
    refine ⟨trivial, ?_, trivial⟩
    rw [FrameOut] at hout
    rcases push_crosses hbb.packet_lt n with h | h
    · rw [if_pos h.symm] at hout
      rw [hout.2, h]
      simp
    · have hk : bb.kBch ≠ 0 := by simp [hbb.kBch_eq]
      rw [if_neg (by omega)] at hout
      rw [hout.2, h, if_pos hk, hout.1, List.range_succ, List.map_append, List.map_singleton]

end OpenVlsnr
