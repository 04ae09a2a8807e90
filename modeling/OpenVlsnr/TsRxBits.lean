import OpenVlsnr.TsStream

/-!
# The receiver over any bit stream (`dvbs2x_ts_rx_push`)

The loop of `dvbs2x_ts_rx_push` sees one endless stream of data-field bits `t`, from the bit at
which it synchronised, cut into chunks of 1504: a marker byte, and the 187 further bytes of a
packet whose sync byte is put back (`rxChunk`).  After `b` bits it holds the first `b % 1504` bits
of the current chunk and the chunk before it (`RxOver`).  A chunk is handed out when the marker of
the next one is its CRC (`rxCheck`).

* `tsRxPushBit_over` - one bit;
* `tsRxPushBits_over` - any number of bits: the chunks that end are handed out if all of them pass
  the check, and the loop fails otherwise.
-/

namespace OpenVlsnr

/-! ### Packet buffers as bits -/

/-- Bit `i` of a packet buffer. -/
def packetBit (packet : PacketBuf) (i : ℕ) : Bool :=
  (packet.toList.getD (i / 8) 0).getLsbD (7 - i % 8)

theorem toList_getD_set (packet : PacketBuf) (b c : ℕ) (v : Byte) (hb : b < tsPacketSize) :
    (packet.setIfInBounds b v).toList.getD c 0 = if c = b then v else packet.toList.getD c 0 := by
  have hl : packet.toList.length = tsPacketSize := packet.length_toList
  rw [Vector.toList_setIfInBounds]
  simp only [List.getD_eq_getElem?_getD, List.getElem?_set, hl]
  by_cases h : c = b
  · subst h; simp [hb]
  · rw [if_neg (fun e => h e.symm), if_neg h]

/-- Two packet buffers with the same bits are the same. -/
theorem packet_ext {a b : PacketBuf} (h : ∀ i < tsPacketBits, packetBit a i = packetBit b i) :
    a = b := by
  apply Vector.ext
  intro c hc
  apply BitVec.eq_of_getLsbD_eq
  intro k hk
  have hi : c * 8 + (7 - k) < tsPacketBits := by simp only [tsPacketBits, tsPacketSize] at hc ⊢; omega
  have := h _ hi
  simp only [packetBit, show (c * 8 + (7 - k)) / 8 = c by omega,
    show 7 - (c * 8 + (7 - k)) % 8 = k by omega] at this
  simpa [List.getD_eq_getElem?_getD, hc] using this

theorem packetBit_storeBit (packet : PacketBuf) (r i : ℕ) (x : Bool) (hr : r < tsPacketBits) :
    packetBit (tsRxStoreBit packet r x) i
      = if i / 8 = r / 8 then
          (if r % 8 = 0 then false else packetBit packet i) || (decide (i = r) && x)
        else packetBit packet i := by
  have hb : r / 8 < tsPacketSize := by simp only [tsPacketBits, tsPacketSize] at hr ⊢; omega
  simp only [packetBit, tsRxStoreBit]
  rw [toList_getD_set _ _ _ _ hb]
  by_cases hbyte : i / 8 = r / 8
  · rw [if_pos hbyte, if_pos hbyte, getLsbD_orBit _ _ _ (Nat.mod_lt _ (by decide))]
    have hpos : decide (7 - i % 8 = 7 - r % 8) = decide (i = r) := by
      congr 1
      exact propext ⟨fun h => by omega, fun h => by rw [h]⟩
    rw [hpos]
    by_cases hz : r % 8 = 0
    · rw [if_pos hz, if_pos hz, toList_getD_set _ _ _ _ hb, if_pos rfl]
      simp
    · rw [if_neg hz, if_neg hz, hbyte]
  · rw [if_neg hbyte, if_neg hbyte]
    by_cases hz : r % 8 = 0
    · rw [if_pos hz, toList_getD_set _ _ _ _ hb, if_neg hbyte]
    · rw [if_neg hz]

/-! ### Chunks of a stream -/

/-- The byte of the stream at bit `g`. -/
def rxByte (t : ℕ → Bool) (g : ℕ) : Byte := bitsByte ((List.range 8).map fun i => t (g + i)) 0

/-- The marker in front of chunk `k`. -/
def rxMarker (t : ℕ → Bool) (k : ℕ) : Byte := rxByte t (k * tsPacketBits)

/-- Chunk `k` as a packet: the sync byte stands in place of the marker. -/
def rxChunk (t : ℕ → Bool) (k : ℕ) : PacketBuf :=
  Vector.ofFn fun c => if c.val = 0 then 0x47 else rxByte t (k * tsPacketBits + 8 * c.val)

/-- Chunk `k` is followed by its CRC. -/
def rxCheck (t : ℕ → Bool) (k : ℕ) : Prop := packetCrc (rxChunk t k) = rxMarker t (k + 1)

theorem rxByte_getLsbD (t : ℕ → Bool) (g j : ℕ) (hj : j < 8) :
    (rxByte t g).getLsbD j = t (g + (7 - j)) := by
  rw [rxByte, bitsByte_getLsbD _ _ _ hj, Nat.zero_add, getD_map_range, if_pos (by omega)]

theorem rxChunk_getD (t : ℕ → Bool) (k c : ℕ) (hc : c < tsPacketSize) :
    (rxChunk t k).toList.getD c 0
      = if c = 0 then 0x47 else rxByte t (k * tsPacketBits + 8 * c) := by
  rw [List.getD_eq_getElem?_getD, Vector.getElem?_toList, rxChunk, Vector.getElem?_ofFn,
    dif_pos hc]
  rfl

theorem rxChunk_sync (t : ℕ → Bool) (k : ℕ) : (rxChunk t k)[0] = 0x47 := by
  rw [rxChunk, Vector.getElem_ofFn]
  rfl

/-- A partial packet: the first `r` bits of `f`, the rest of the byte in progress still clear. -/
structure BitPrefix (f : ℕ → Bool) (r : ℕ) (packet : PacketBuf) : Prop where
  filled : ∀ i < r, packetBit packet i = f i
  clear : ∀ i, r ≤ i → i / 8 = r / 8 → r % 8 ≠ 0 → packetBit packet i = false

theorem BitPrefix.zero (f : ℕ → Bool) (packet : PacketBuf) : BitPrefix f 0 packet :=
  ⟨fun _ h => absurd h (Nat.not_lt_zero _), fun _ _ _ h => absurd rfl h⟩

theorem BitPrefix.succ {f : ℕ → Bool} {r : ℕ} {packet : PacketBuf} (h : BitPrefix f r packet)
    (hr : r < tsPacketBits) : BitPrefix f (r + 1) (tsRxStoreBit packet r (f r)) := by
  constructor
  · intro i hi
    rw [packetBit_storeBit _ _ _ _ hr]
    rcases Nat.lt_succ_iff_lt_or_eq.mp hi with hlt | rfl
    · have hne : decide (i = r) = false := by simp; omega
      rw [hne]
      by_cases hbyte : i / 8 = r / 8
      · rw [if_pos hbyte, if_neg (by omega), h.filled i hlt]
        simp
      · rw [if_neg hbyte, h.filled i hlt]
    · rw [if_pos rfl]
      by_cases hz : i % 8 = 0
      · simp [hz]
      · simp [hz, h.clear i le_rfl rfl hz]
  · intro i hi hbyte hz
    have hsame : i / 8 = r / 8 := by omega
    have hne : decide (i = r) = false := by simp; omega
    rw [packetBit_storeBit _ _ _ _ hr, if_pos hsame, hne]
    by_cases hr0 : r % 8 = 0
    · simp [hr0]
    · simp [hr0, h.clear i (by omega) hsame hr0]

/-- A complete packet carries the marker in place of its sync byte. -/
theorem BitPrefix.full {t : ℕ → Bool} {k : ℕ} {packet : PacketBuf}
    (h : BitPrefix (fun i => t (k * tsPacketBits + i)) tsPacketBits packet) :
    packet[0] = rxMarker t k ∧ packet.set 0 0x47 = rxChunk t k := by
  constructor
  · apply BitVec.eq_of_getLsbD_eq
    intro j hj
    have hbit := h.filled (7 - j) (by simp only [tsPacketBits]; omega)
    rw [rxMarker, rxByte_getLsbD _ _ _ hj, ← hbit]
    simp only [packetBit, show (7 - j) / 8 = 0 by omega, show 7 - (7 - j) % 8 = j by omega]
    simp [List.getD_eq_getElem?_getD]
  · apply packet_ext
    intro i hi
    have hset : (packet.set 0 0x47) = packet.setIfInBounds 0 0x47 := by
      simp [Vector.setIfInBounds, Vector.set, Array.setIfInBounds]
    have hbyte : i / 8 < tsPacketSize := by simp only [tsPacketBits, tsPacketSize] at hi ⊢; omega
    rw [hset, packetBit, toList_getD_set _ _ _ _ (by decide), packetBit, rxChunk_getD _ _ _ hbyte]
    by_cases h8 : i / 8 = 0
    · rw [if_pos h8, if_pos h8]
    · rw [if_neg h8, if_neg h8, rxByte_getLsbD _ _ _ (by omega), Nat.add_assoc]
      have hsplit : 8 * (i / 8) + (7 - (7 - i % 8)) = i := by omega
      rw [hsplit]
      exact h.filled i hi

/-! ### The receiver inside a frame -/

/-- The receiver that has consumed `b` bits of the stream. -/
structure RxOver (t : ℕ → Bool) (b : ℕ) (packet previous : PacketBuf) (packetBits : ℕ)
    (havePrevious : Bool) : Prop where
  bits : packetBits = b % tsPacketBits
  have_iff : havePrevious = decide (0 < b / tsPacketBits)
  previous_eq : 0 < b / tsPacketBits → previous = rxChunk t (b / tsPacketBits - 1)
  partial_eq : BitPrefix (fun i => t (b / tsPacketBits * tsPacketBits + i)) (b % tsPacketBits)
    packet

/-- The number of packets verified once `b` bits have been consumed. -/
def verified (b : ℕ) : ℕ := b / tsPacketBits - 1

theorem verified_mono {a b : ℕ} (h : a ≤ b) : verified a ≤ verified b :=
  Nat.sub_le_sub_right (Nat.div_le_div_right h) 1

/-- Consecutive chunks: `m` of them from chunk `a` on. -/
def chunksFrom (t : ℕ → Bool) (a m : ℕ) : List PacketBuf :=
  (List.range m).map fun i => rxChunk t (a + i)

theorem chunksFrom_append (t : ℕ → Bool) (a m n : ℕ) :
    chunksFrom t a m ++ chunksFrom t (a + m) n = chunksFrom t a (m + n) := by
  simp only [chunksFrom, List.range_add, List.map_append, List.map_map, Function.comp_def,
    Nat.add_assoc]

/-- The state after `b` bits, with the packets handed out. -/
abbrev RxOverLoop (t : ℕ → Bool) (b : ℕ) (l : TsRxLoop) : Prop :=
  RxOver t b l.packet l.previous l.packetBits l.havePrevious

/-- The end of chunk `c`: the chunk before it, if there is one, is checked and handed out. -/
theorem tsRxPacketEnd_over {t : ℕ → Bool} {c : ℕ} {l : TsRxLoop}
    (hhave : l.havePrevious = decide (0 < c)) (hprev : 0 < c → l.previous = rxChunk t (c - 1))
    (hfull : BitPrefix (fun i => t (c * tsPacketBits + i)) tsPacketBits l.packet) :
    ((∀ k, k + 1 = c → rxCheck t k) → tsRxPacketEnd l = .ok
        { packet := rxChunk t c
          previous := rxChunk t c
          packetBits := 0
          havePrevious := true
          output := l.output ++ chunksFrom t (c - 1) (c - (c - 1)) }) ∧
      (∀ k, k + 1 = c → ¬rxCheck t k → tsRxPacketEnd l = .error errCrc) := by
  obtain ⟨hmarker, hset⟩ := hfull.full
  unfold tsRxPacketEnd
  rw [hmarker, hset]
  cases c with
  | zero =>
    have hno : l.havePrevious = false := by simpa using hhave
    rw [hno]
    exact ⟨fun _ => by simp [chunksFrom], fun k hk => absurd hk (Nat.succ_ne_zero k)⟩
  | succ k =>
    have hyes : l.havePrevious = true := by simpa using hhave
    have hprevk : l.previous = rxChunk t k := hprev (Nat.succ_pos k)
    rw [hyes, hprevk]
    constructor
    · intro hcheck
      have hcrc : packetCrc (rxChunk t k) = rxMarker t (k + 1) := hcheck k rfl
      rw [if_neg (by rw [hcrc]; simp)]
      simp [chunksFrom]
    · intro k' hk' hcheck
      obtain rfl := Nat.succ_injective hk'
      exact if_pos ⟨rfl, hcheck⟩

/-- **One bit.** -/
theorem tsRxPushBit_over {t : ℕ → Bool} {b : ℕ} {l : TsRxLoop} (h : RxOverLoop t b l) :
    ((∀ k, verified b ≤ k → k < verified (b + 1) → rxCheck t k) →
        ∃ l', tsRxPushBit l (t b) = .ok l' ∧ RxOverLoop t (b + 1) l' ∧
          l'.output = l.output ++ chunksFrom t (verified b) (verified (b + 1) - verified b)) ∧
      (∀ k, verified b ≤ k → k < verified (b + 1) → ¬rxCheck t k →
        tsRxPushBit l (t b) = .error errCrc) := by
  have hpos : 0 < tsPacketBits := by decide
  have hr : b % tsPacketBits < tsPacketBits := Nat.mod_lt _ hpos
  have hstore := h.partial_eq.succ hr
  rw [Nat.div_add_mod'] at hstore
  unfold tsRxPushBit
  rw [h.bits]
  generalize tsRxStoreBit l.packet (b % tsPacketBits) (t b) = packet at hstore ⊢
  by_cases hend : b % tsPacketBits + 1 = tsPacketBits
  · -- the last bit of a chunk
    obtain ⟨hmod, hdiv⟩ := succ_of_full hend
    rw [hend] at hstore
    obtain ⟨hok, herror⟩ := tsRxPacketEnd_over (l :=
      ⟨packet, l.previous, b % tsPacketBits + 1, l.havePrevious, l.output⟩) h.have_iff
      h.previous_eq hstore
    have hverified : verified (b + 1) = b / tsPacketBits := by
      rw [verified, hdiv, Nat.add_sub_cancel]
    dsimp only
    rw [if_neg (not_not.mpr hend), hverified]
    constructor
    · intro hcheck
      refine ⟨_, hok fun k hk => hcheck k ?_ ?_, ⟨hmod.symm, ?_, ?_, ?_⟩, rfl⟩
      · rw [verified]
        omega
      · omega
      · simp [hdiv]
      · intro _
        rw [hdiv]
        rfl
      · rw [hmod]
        exact BitPrefix.zero _ _
    · intro k hlow hhigh hcheck
      refine herror k ?_ hcheck
      rw [verified] at hlow
      omega
  · obtain ⟨hmod, hdiv⟩ := succ_of_not_full hpos hend
    have hverified : verified (b + 1) = verified b := by rw [verified, verified, hdiv]
    dsimp only
    rw [if_pos hend, hverified]
    refine ⟨fun _ => ⟨_, rfl, ⟨hmod.symm, ?_, ?_, ?_⟩, ?_⟩, fun k hlow hhigh => ?_⟩
    · rw [hdiv]
      exact h.have_iff
    · rw [hdiv]
      exact h.previous_eq
    · rw [hmod, hdiv]
      exact hstore
    · simp [chunksFrom]
    · omega

/-- **The loop over any stretch of the stream**, by induction on the number of bits. -/
theorem tsRxPushBits_over {t : ℕ → Bool} {b : ℕ} {l : TsRxLoop} (h : RxOverLoop t b l) (m : ℕ) :
    ((∀ k, verified b ≤ k → k < verified (b + m) → rxCheck t k) →
        ∃ l', ((List.range m).map fun i => t (b + i)).foldlM tsRxPushBit l = .ok l' ∧
          RxOverLoop t (b + m) l' ∧
          l'.output = l.output ++ chunksFrom t (verified b) (verified (b + m) - verified b)) ∧
      (∀ k, verified b ≤ k → k < verified (b + m) → ¬rxCheck t k →
        ((List.range m).map fun i => t (b + i)).foldlM tsRxPushBit l = .error errCrc) := by
  induction m with
  | zero =>
    refine ⟨fun _ => ⟨l, rfl, h, ?_⟩, fun k hlow hhigh => absurd hhigh (not_lt.mpr hlow)⟩
    simp [chunksFrom]
  | succ m ih =>
    obtain ⟨hok, herror⟩ := ih
    have hstep : ((List.range (m + 1)).map fun i => t (b + i)).foldlM tsRxPushBit l
        = (((List.range m).map fun i => t (b + i)).foldlM tsRxPushBit l).bind
          fun l₁ => tsRxPushBit l₁ (t (b + m)) := by
      rw [List.range_succ, List.map_append, List.map_singleton, List.foldlM_append]
      simp only [bind, List.foldlM_cons, List.foldlM_nil]
      refine congrArg _ (funext fun l₁ => ?_)
      cases tsRxPushBit l₁ (t (b + m)) <;> rfl
    have hmono₁ : verified b ≤ verified (b + m) := verified_mono (Nat.le_add_right _ _)
    have hmono₂ : verified (b + m) ≤ verified (b + (m + 1)) := verified_mono (by omega)
    by_cases hall : ∀ k, verified b ≤ k → k < verified (b + m) → rxCheck t k
    · obtain ⟨l₁, hrun, hover, hout⟩ := hok hall
      obtain ⟨hok₂, herror₂⟩ := tsRxPushBit_over hover
      rw [hstep, hrun]
      constructor
      · intro hcheck
        obtain ⟨l₂, hlast, hover₂, hout₂⟩ :=
          hok₂ fun k hlow hhigh => hcheck k (hmono₁.trans hlow) hhigh
        refine ⟨l₂, hlast, hover₂, ?_⟩
        rw [hout₂, hout, List.append_assoc]
        have hjoin := chunksFrom_append t (verified b) (verified (b + m) - verified b)
          (verified (b + m + 1) - verified (b + m))
        rw [Nat.add_sub_cancel' hmono₁] at hjoin
        rw [hjoin]
        congr 2
        rw [Nat.add_assoc]
        omega
      · intro k hlow hhigh hcheck
        refine herror₂ k (not_lt.mp fun hlt => hcheck (hall k hlow hlt)) hhigh hcheck
    · push Not at hall
      obtain ⟨k, hlow, hhigh, hcheck⟩ := hall
      rw [hstep, herror k hlow hhigh hcheck]
      exact ⟨fun hcheck' => absurd (hcheck' k hlow (hhigh.trans_le hmono₂)) hcheck,
        fun _ _ _ _ => rfl⟩

/-! ### One frame -/

/-- Past the acceptance tests. -/
theorem tsRxPush_of_start {rx : TsRx} {bbframe descrambled : List Bool} {header : BbHeader}
    {start : ℕ} (packets : List PacketBuf) (capacity : ℕ)
    (hread : bbHeaderRead rx.bb bbframe = .ok (descrambled, header))
    (hstart : tsRxStart rx header = .ok start) :
    tsRxPush rx bbframe packets capacity =
      if capacity < tsRxNeeded rx header.dfl start then
        ⟨errShort, rx, packets, tsRxNeeded rx header.dfl start⟩
      else
        let bits := (descrambled.drop (bbHeaderBits + start)).take (header.dfl - start)
        match bits.foldlM tsRxPushBit
            ⟨rx.packet, rx.previous, rx.packetBits, rx.havePrevious, []⟩ with
        | .error e => ⟨e, rx, packets, 0⟩
        | .ok s =>
          ⟨ok,
            { rx with
              packet := s.packet
              previous := s.previous
              packetBits := s.packetBits
              havePrevious := s.havePrevious },
            memcpyAt packets 0 s.output, s.output.length⟩ := by
  rw [tsRxPush, hread]
  dsimp only
  split
  · rename_i e herror
    cases hstart.symm.trans herror
  · rename_i start' hstart'
    obtain rfl := Except.ok.inj (hstart.symm.trans hstart')
    rfl

/-- The receiver that has consumed `b` bits of the stream, between two frames. -/
structure RxOverAt (bb : BbFrameCtx) (t : ℕ → Bool) (b : ℕ) (rx : TsRx) : Prop where
  kBch_eq : rx.bb.kBch = bb.kBch
  dfl_eq : rx.bb.dfl = bb.dfl
  held : RxOver t b rx.packet rx.previous rx.packetBits rx.havePrevious

/-- A receiver that has just been reset holds nothing of any stream. -/
theorem rxOverAt_reset {bb : BbFrameCtx} (t : ℕ → Bool) (rx : TsRx)
    (hk : rx.bb.kBch = bb.kBch) (hd : rx.bb.dfl = bb.dfl) : RxOverAt bb t 0 (tsRxReset rx) := by
  refine ⟨hk, hd, ⟨rfl, rfl, fun h => ?_, BitPrefix.zero _ _⟩⟩
  simp at h

section Frame
variable {bb : BbFrameCtx} {t : ℕ → Bool} {s b j start : ℕ} {rx : TsRx}

/-- The acceptance test passes on a transmitted header and finds the next unread bit: the
first packet boundary for a receiver that has nothing, the first bit of the field otherwise. -/
theorem tsRxStart_over (hbb : bb.Valid) (h : RxOverAt bb t b rx)
    (hpos : j * bb.dfl + start = s * tsPacketBits + b)
    (hstart : if b = 0 then start = syncdAt bb.dfl j else start = 0) (crc8 : Byte) :
    tsRxStart rx
      { matype1 := 0xf0 ||| (bb.ro &&& 0x03), matype2 := 0, upl := tsPacketBits, dfl := bb.dfl,
        sync := 0x47, syncd := syncdAt bb.dfl j, crc8 := crc8 } = .ok start := by
  have hsync := syncdAt_lt bb.dfl j
  have hlt := hbb.packet_lt
  have hd := h.dfl_eq
  unfold tsRxStart
  rw [if_neg (by simp only [matype1_ts, hd]; simp)]
  by_cases hb : b = 0
  · subst hb
    have hnone : rx.packetBits = 0 ∧ rx.havePrevious = false := by
      rw [h.held.bits, h.held.have_iff]
      simp
    rw [if_pos rfl] at hstart
    dsimp only
    rw [if_pos hnone, if_neg (by omega), hstart]
  · rw [if_neg hb] at hstart
    subst hstart
    have hjoin : ¬ (rx.packetBits = 0 ∧ rx.havePrevious = false) := by
      rw [h.held.bits, h.held.have_iff]
      have := Nat.div_add_mod b tsPacketBits
      rintro ⟨h₁, h₂⟩
      have h₃ := Nat.eq_zero_of_not_pos (of_decide_eq_false h₂)
      rw [h₁, h₃] at this
      omega
    have hsyncd : syncdAt bb.dfl j
        = if rx.packetBits ≠ 0 then tsPacketBits - rx.packetBits else 0 := by
      rw [syncdAt, h.held.bits, show j * bb.dfl = s * tsPacketBits + b by omega]
      by_cases hz : b % tsPacketBits = 0
      · rw [if_neg (by simpa using hz)]
        simp only [tsPacketBits] at hz ⊢
        omega
      · rw [if_pos hz]
        simp only [tsPacketBits] at hz ⊢
        omega
    dsimp only
    rw [if_neg hjoin, if_neg (not_not.mpr hsyncd)]

/-- Room for every packet that a data field can complete. -/
theorem tsRxNeeded_le (h : RxOverAt bb t b rx) (start : ℕ) :
    tsRxNeeded rx bb.dfl start ≤ (bb.dfl + (tsPacketBits - 1)) / tsPacketBits := by
  have hle : (rx.packetBits + bb.dfl - start) / tsPacketBits
      ≤ (bb.dfl + (tsPacketBits - 1)) / tsPacketBits := by
    have := Nat.mod_lt b (show 0 < tsPacketBits by decide)
    exact Nat.div_le_div_right (by rw [h.held.bits]; omega)
  unfold tsRxNeeded
  dsimp only
  split
  · exact (Nat.sub_le _ _).trans hle
  · exact hle

section Push
variable (hbb : bb.Valid) (h : RxOverAt bb t b rx) (hpos : j * bb.dfl + start = s * tsPacketBits + b)
  (hstart : if b = 0 then start = syncdAt bb.dfl j else start = 0) {field frame : List Bool}
  (hholds : FrameHolds bb.kBch
    (bbHeaderBytes bb bb.dfl tsPacketBits 0x47 (syncdAt bb.dfl j) 0xf0) field frame)
  (hfield : field.drop start = (List.range (bb.dfl - start)).map fun i => t (b + i))
  (packets : List PacketBuf)
include hbb h hpos hstart hholds hfield

/-- What the header of frame `j` leads to: the loop over the next bits of the stream. -/
theorem tsRxPush_stream (packetCapacity : ℕ) :
    tsRxPush rx frame packets packetCapacity =
      if packetCapacity < tsRxNeeded rx bb.dfl start then
        ⟨errShort, rx, packets, tsRxNeeded rx bb.dfl start⟩
      else
        match ((List.range (bb.dfl - start)).map fun i => t (b + i)).foldlM tsRxPushBit
            ⟨rx.packet, rx.previous, rx.packetBits, rx.havePrevious, []⟩ with
        | .error e => ⟨e, rx, packets, 0⟩
        | .ok l => ⟨ok, ⟨rx.bb, l.packet, l.previous, l.packetBits, l.havePrevious⟩,
            memcpyAt packets 0 l.output, l.output.length⟩ := by
  have hlen : field.length = bb.dfl := by
    have h₁ := hholds.bits
    have h₂ := hbb.kBch_eq
    omega
  have hread := bbHeaderRead_tsFrame rx.bb bb (syncdAt bb.dfl j) field frame h.kBch_eq hlen
    hbb.kBch_eq hbb.kBch_le (lt_trans (syncdAt_lt _ _) (by decide)) hholds.frame_eq
  have hbits : (((bbHeaderBytes bb bb.dfl tsPacketBits 0x47 (syncdAt bb.dfl j) 0xf0).flatMap
      byteBits ++ field).drop (bbHeaderBits + start)).take (bb.dfl - start)
        = (List.range (bb.dfl - start)).map fun i => t (b + i) := by
    rw [← List.drop_drop, hholds.drop_header, hfield]
    exact List.take_of_length_le (by simp)
  have hpush := tsRxPush_of_start packets packetCapacity hread
    (tsRxStart_over hbb h hpos hstart _)
  dsimp only at hpush
  rw [hbits] at hpush
  exact hpush

/-- **One frame**, with room for its packets: all checks pass and the chunks that become verified
are handed out, or one fails and nothing has happened. -/
theorem tsRxPush_over {packetCapacity : ℕ} (hroom : tsRxNeeded rx bb.dfl start ≤ packetCapacity) :
    ((∀ k, verified b ≤ k → k < verified (b + (bb.dfl - start)) → rxCheck t k) →
        ∃ l, tsRxPush rx frame packets packetCapacity
            = ⟨ok, ⟨rx.bb, l.packet, l.previous, l.packetBits, l.havePrevious⟩,
              memcpyAt packets 0 l.output, l.output.length⟩ ∧
          RxOverLoop t (b + (bb.dfl - start)) l ∧
          l.output = chunksFrom t (verified b)
            (verified (b + (bb.dfl - start)) - verified b)) ∧
      (∀ k, verified b ≤ k → k < verified (b + (bb.dfl - start)) → ¬rxCheck t k →
        tsRxPush rx frame packets packetCapacity = ⟨errCrc, rx, packets, 0⟩) := by
  have hpush := tsRxPush_stream hbb h hpos hstart hholds hfield packets packetCapacity
  rw [if_neg (not_lt.mpr hroom)] at hpush
  obtain ⟨hok, herror⟩ := tsRxPushBits_over
    (l := ⟨rx.packet, rx.previous, rx.packetBits, rx.havePrevious, []⟩) h.held (bb.dfl - start)
  constructor
  · intro hcheck
    obtain ⟨l, hloop, hover, hout⟩ := hok hcheck
    rw [hloop] at hpush
    exact ⟨l, hpush, hover, hout⟩
  · intro k hlow hhigh hcheck
    rw [herror k hlow hhigh hcheck] at hpush
    exact hpush

/-- A frame that is accepted had room. -/
theorem tsRxPush_room {packetCapacity : ℕ}
    (hret : (tsRxPush rx frame packets packetCapacity).ret = ok) :
    tsRxNeeded rx bb.dfl start ≤ packetCapacity := by
  by_contra hlt
  rw [tsRxPush_stream hbb h hpos hstart hholds hfield, if_pos (not_le.mp hlt)] at hret
  exact absurd (show errShort = ok from hret) (by decide)

end Push

end Frame

end OpenVlsnr
