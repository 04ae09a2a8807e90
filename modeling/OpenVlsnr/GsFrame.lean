import OpenVlsnr.TsRoundTrip

/-!
# Generic-stream frames, and the two stream types apart (`bb_frame.c`)

`dvbs2x_bb_frame_build` writes its own header and `dvbs2x_bb_frame_parse_ex` reads its own; both
are met at the bytes that the frame buffer holds.

* `bbFrameBuild_holds` - a built frame: the header, the user bits, zeros up to the end of the
  data field;
* `tsTxPush_holds` - a frame that `dvbs2x_ts_tx_push` emits, from any state of the transmitter;
* `gsFrame_round_trip` - build and parse, and each stream type's receiver refusing the other's
  frames.
-/

namespace OpenVlsnr

/-! ### Building -/

/-- A copy right behind a prefix. -/
theorem memcpyAt_behind {α : Type*} (l rest src : List α) {off : ℕ} (hoff : l.length = off) :
    memcpyAt (l ++ rest) off src = l ++ src ++ rest.drop src.length := by
  subst hoff
  rw [memcpyAt, List.take_left, ← List.drop_drop, List.drop_left]

/-- The two writers of the source agree on a header: a generic stream has no sync byte. -/
theorem bbBuildHeader_eq (ctx : BbFrameCtx) (dfl : ℕ) :
    bbBuildHeader ctx dfl = bbHeaderBytes ctx dfl ctx.upl 0 0 0x70 := rfl

theorem bbBuildHeader_length (ctx : BbFrameCtx) (dfl : ℕ) :
    (bbBuildHeader ctx dfl).length = bbHeaderLen := rfl

theorem bbBuildHeader_crc (ctx : BbFrameCtx) (dfl : ℕ) :
    bbCrc8 ((bbBuildHeader ctx dfl).take 9) = (bbBuildHeader ctx dfl).getD 9 0 := by
  rw [bbBuildHeader_eq]
  exact bbHeaderBytes_crc _ _ _ _ _ _

/-- A data field: the user bits and the padding. -/
def gsField (ctx : BbFrameCtx) (userData : List Bool) : List Bool :=
  userData ++ List.replicate (ctx.dfl - userData.length) false

theorem gsField_length {ctx : BbFrameCtx} {userData : List Bool}
    (hlen : userData.length ≤ ctx.dfl) : (gsField ctx userData).length = ctx.dfl := by
  rw [gsField, List.length_append, List.length_replicate]
  omega

/-- **What building leaves in the buffer**, whatever was there before. -/
theorem bbFrameBuild_holds {ctx : BbFrameCtx} (hgs : ctx.streamType = .gs)
    (hk : ctx.kBch = bbHeaderBits + ctx.dfl) (hfits : ctx.kBch ≤ ldpcNormal)
    {userData : List Bool} (hlen : userData.length ≤ ctx.dfl) (bbframe : List Bool) :
    (bbFrameBuild ctx userData userData.length bbframe).1 = ok ∧
      FrameHolds ctx.kBch (bbBuildHeader ctx userData.length) (gsField ctx userData)
        (bbFrameBuild ctx userData userData.length bbframe).2 := by
  set hdr := (bbBuildHeader ctx userData.length).flatMap byteBits with hhdr
  have hhdrlen : hdr.length = bbHeaderBits := by
    rw [hhdr, flatMap_byteBits_length, bbBuildHeader_length]
    rfl
  have hbodylen : (hdr ++ gsField ctx userData).length = ctx.kBch := by
    rw [List.length_append, hhdrlen, gsField_length hlen, hk]
  have huserlen : (hdr ++ userData).length = bbHeaderBits + userData.length := by
    rw [List.length_append, hhdrlen]
  -- the three loops, each behind what the one before has written
  have hheader : memcpyAt bbframe 0 hdr = hdr ++ bbframe.drop hdr.length :=
    memcpyAt_behind [] bbframe hdr rfl
  obtain ⟨rest, hbuf⟩ : ∃ rest, memcpyAt
      (memcpyAt (memcpyAt bbframe 0 hdr) bbHeaderBits (userData.take userData.length))
      (bbHeaderBits + userData.length) (List.replicate (ctx.dfl - userData.length) false)
        = (hdr ++ gsField ctx userData) ++ rest := by
    rw [hheader, List.take_length, memcpyAt_behind _ _ _ hhdrlen, memcpyAt_behind _ _ _ huserlen,
      gsField, ← List.append_assoc hdr]
    exact ⟨_, rfl⟩
  have hbuild : bbFrameBuild ctx userData userData.length bbframe
      = (ok, bbScramble ((hdr ++ gsField ctx userData) ++ rest) ctx.kBch) := by
    rw [← hbuf]
    exact if_neg (by simp [hgs, hlen])
  rw [hbuild]
  refine ⟨rfl, bbBuildHeader_length _ _, ?_, hfits, ?_⟩
  · rw [gsField_length hlen, hk]
  · rw [bbScramble, List.take_left' hbodylen,
      List.take_left' ((bbScrambleFrom_length _ _).trans hbodylen)]

/-! ### Parsing -/

/-- The roll-off code does not touch the bits the parser tests. -/
theorem matype1_gs (ro : Byte) : ((0x70 : Byte) ||| (ro &&& 0x03)) &&& 0xc0 = 0x40 := by
  revert ro; decide

/-- The context of `dvbs2x_bb_frame_init` for a generic stream, with the roll-off code set. -/
def gsContext (mc : Modcod) (ro : Byte) : BbFrameCtx := { bbFrameInit mc .gs with ro := ro }

section Contexts
variable {mc : Modcod} (hmc : mc ∈ vlsnrModcodTable) (ro : Byte)
include hmc

theorem gsContext_dfl : (gsContext mc ro).dfl = mc.kBch - bbHeaderBits := tsContext_dfl hmc ro

theorem gsContext_kBch : (gsContext mc ro).kBch = bbHeaderBits + (gsContext mc ro).dfl :=
  (tsContext_valid hmc ro).kBch_eq

/-- **Parsing a built frame.** -/
theorem parse_gsFrame {userData : List Bool} (hlen : userData.length ≤ mc.kBch - bbHeaderBits)
    {ro' : Byte} {frame : List Bool}
    (hholds : FrameHolds mc.kBch (bbBuildHeader (gsContext mc ro) userData.length)
      (gsField (gsContext mc ro) userData) frame) (out : List Bool) (capacity : ℕ) :
    bbFrameParseEx (gsContext mc ro') frame out capacity =
      if capacity < userData.length then ⟨errShort, out, userData.length⟩
      else ⟨ok, memcpyAt out 0 userData, userData.length⟩ := by
  have hdfl := uint16_bytes userData.length (by
    obtain ⟨_, hk, -⟩ := modcod_geometry mc hmc
    simp only [ldpcNormal, bbHeaderBits] at hk hlen
    omega)
  have hupl : (gsContext mc ro).upl = 0 := rfl
  rw [hholds.parse rfl (bbBuildHeader_crc _ _), bbBuildHeader_eq]
  simp only [bbHeaderBytes, List.cons_append, List.getD_cons_zero, List.getD_cons_succ, hdfl,
    hupl, matype1_gs]
  rw [if_neg (by decide), if_neg (not_lt.mpr hlen), gsField, List.take_left]
end Contexts

/-! ### The two stream types -/

/-- The TS receiver refuses a generic-stream header. -/
theorem tsRxPush_gsFrame {mc : Modcod} {ctx : BbFrameCtx} {dfl : ℕ} {data frame : List Bool}
    (hholds : FrameHolds mc.kBch (bbBuildHeader ctx dfl) data frame) {rx : TsRx}
    (hrx : rx.bb.kBch = mc.kBch) (packets : List PacketBuf) (capacity : ℕ) :
    tsRxPush rx frame packets capacity = ⟨errParam, rx, packets, 0⟩ := by
  have htype : (bbBuildHeader ctx dfl).getD 0 0 &&& 0xc0 ≠ 0xc0 := by
    rw [bbBuildHeader_eq]
    simp only [bbHeaderBytes, List.cons_append, List.getD_cons_zero, matype1_gs]
    decide
  rw [tsRxPush, hholds.read hrx (bbBuildHeader_crc _ _)]
  dsimp only
  rw [tsRxStart, if_pos (Or.inl htype)]

/-- The generic-stream parser refuses a TS header. -/
theorem parse_tsFrame {ctx bb : BbFrameCtx} {syncd : ℕ} {data frame : List Bool}
    (hholds : FrameHolds bb.kBch (bbHeaderBytes bb bb.dfl tsPacketBits 0x47 syncd 0xf0) data frame)
    (hctx : ctx.kBch = bb.kBch) (out : List Bool) (capacity : ℕ) :
    bbFrameParseEx ctx frame out capacity = ⟨errParam, out, 0⟩ := by
  rw [hholds.parse hctx (bbHeaderBytes_crc _ _ _ _ _ _)]
  refine if_pos (Or.inl ?_)
  simp only [bbHeaderBytes, List.cons_append, List.getD_cons_zero, matype1_ts]
  decide

/-- What the loop of `dvbs2x_ts_tx_push` has emitted so far: nothing, or a whole TS frame. -/
def TsTxEmitted (bb : BbFrameCtx) (s : TsTxPush) : Prop :=
  s.tx.bb = bb ∧ (s.frameLen ≠ 0 → ∃ syncd data,
    FrameHolds bb.kBch (bbHeaderBytes bb bb.dfl tsPacketBits 0x47 syncd 0xf0) data s.bbframe)

theorem TsTxEmitted.step {bb : BbFrameCtx} (hbb : bb.Valid) {s : TsTxPush} (h : TsTxEmitted bb s)
    (packet : PacketBuf) (i : ℕ) : TsTxEmitted bb (tsTxPushBit packet s i) := by
  obtain ⟨rfl, hout⟩ := h
  unfold tsTxPushBit
  dsimp only
  generalize s.tx.dataBits ++ [_] = data
  by_cases hfull : data.length = s.tx.bb.dfl
  · rw [if_neg (not_not.mpr hfull)]
    refine ⟨rfl, fun _ => ⟨s.tx.syncd, data, ?_⟩⟩
    exact tsFrame_holds s.tx.bb s.tx.syncd data _ hfull hbb.kBch_eq hbb.kBch_le
      (tsTxFrame_take _ _ _ _ hfull hbb.kBch_eq)
  · rw [if_pos hfull]
    exact ⟨rfl, hout⟩

theorem tsTxPushBits_emitted {bb : BbFrameCtx} (hbb : bb.Valid) {s : TsTxPush}
    (h : TsTxEmitted bb s) (packet : PacketBuf) : TsTxEmitted bb (tsTxPushBits packet s) := by
  unfold tsTxPushBits
  generalize List.range tsPacketBits = is
  induction is generalizing s with
  | nil => exact h
  | cons i is ih => exact ih (h.step hbb packet i)

theorem tsTxPush_accepts {tx : TsTx} {packet : PacketBuf} {buf : List Bool} {frameCapacity : ℕ}
    (hret : (tsTxPush tx packet buf frameCapacity).1 = ok) :
    packet[0] = 0x47 ∧ tx.bb.kBch ≤ frameCapacity := by
  unfold tsTxPush at hret
  split_ifs at hret with hsync hroom
  · exact absurd (show errParam = ok from hret) (by decide)
  · exact absurd (show errShort = ok from hret) (by decide)
  · exact ⟨not_not.mp hsync, not_lt.mp hroom⟩

/-- **A frame that the transmitter emits**, whatever it has been sent before. -/
theorem tsTxPush_holds {tx : TsTx} (hbb : tx.bb.Valid) (packet : PacketBuf) (buf : List Bool)
    (frameCapacity : ℕ) (hret : (tsTxPush tx packet buf frameCapacity).1 = ok)
    (hlen : (tsTxPush tx packet buf frameCapacity).2.frameLen ≠ 0) :
    ∃ syncd data, FrameHolds tx.bb.kBch
      (bbHeaderBytes tx.bb tx.bb.dfl tsPacketBits 0x47 syncd 0xf0) data
      (tsTxPush tx packet buf frameCapacity).2.bbframe := by
  obtain ⟨s, hs⟩ : ∃ s, tsTxPushBits packet ⟨tx, buf, 0⟩ = s := ⟨_, rfl⟩
  obtain ⟨hsync, hroom⟩ := tsTxPush_accepts hret
  have hloop : TsTxEmitted tx.bb s := by
    rw [← hs]
    exact tsTxPushBits_emitted hbb ⟨rfl, fun h => absurd rfl h⟩ packet
  rw [tsTxPush_eq tx packet buf frameCapacity s hs hsync hroom] at hlen ⊢
  exact hloop.2 hlen

/-! ### The round trip -/

/-- **Parsing undoes building, and the stream types stay apart.**  A frame built from any user bits
that fit is parsed back to them, or reported as `SHORT` with their number when there is no room;
no TS receiver takes it, and the parser takes no frame emitted by a TS transmitter, in whatever
state receiver and transmitter are. -/
theorem gsFrame_round_trip {mc : Modcod} (hmc : mc ∈ vlsnrModcodTable) (ro : Byte)
    (userData : List Bool) (hlen : userData.length ≤ mc.kBch - bbHeaderBits)
    (bbframe : List Bool) :
    let build := bbFrameBuild (gsContext mc ro) userData userData.length bbframe
    build.1 = ok ∧
      (∀ (ro' : Byte) (out : List Bool) (capacity : ℕ),
        bbFrameParseEx (gsContext mc ro') build.2 out capacity =
          if userData.length ≤ capacity then ⟨ok, memcpyAt out 0 userData, userData.length⟩
          else ⟨errShort, out, userData.length⟩) ∧
      (∀ rx : TsRx, rx.bb = (tsRxInit mc).bb → ∀ (packets : List PacketBuf) (capacity : ℕ),
        tsRxPush rx build.2 packets capacity = ⟨errParam, rx, packets, 0⟩) ∧
      ∀ (ro' : Byte) (tx : TsTx), tx.bb = tsContext mc ro' →
        ∀ (packet : PacketBuf) (buf : List Bool) (frameCapacity : ℕ),
          let push := tsTxPush tx packet buf frameCapacity
          push.1 = ok → push.2.frameLen ≠ 0 → ∀ (out : List Bool) (capacity : ℕ),
            bbFrameParseEx (gsContext mc ro) push.2.bbframe out capacity
              = ⟨errParam, out, 0⟩ := by
  intro build
  have hdfl := gsContext_dfl hmc ro
  obtain ⟨_, hfits, -⟩ := modcod_geometry mc hmc
  have hgs : (gsContext mc ro).streamType = .gs := rfl
  obtain ⟨hret, hholds⟩ := bbFrameBuild_holds hgs (gsContext_kBch hmc ro) hfits
    (hlen.trans hdfl.ge) bbframe
  refine ⟨hret, fun ro' out capacity => ?_, fun rx hrx packets capacity => ?_,
    fun ro' tx htx packet buf frameCapacity => ?_⟩
  · rw [parse_gsFrame hmc ro hlen hholds]
    by_cases hroom : userData.length ≤ capacity
    · rw [if_pos hroom, if_neg (not_lt.mpr hroom)]
    · rw [if_neg hroom, if_pos (not_le.mp hroom)]
  · exact tsRxPush_gsFrame hholds (by rw [hrx]; rfl) packets capacity
  · intro push hok hout out capacity
    have hvalid : tx.bb.Valid := htx ▸ tsContext_valid hmc ro'
    obtain ⟨syncd, data, hts⟩ := tsTxPush_holds hvalid packet buf frameCapacity hok hout
    exact parse_tsFrame hts (by rw [htx]; rfl) out capacity

/-- Three bits in a frame of the first MODCOD. -/
theorem gsFrame_round_trip_three :
    ∃ mc ∈ vlsnrModcodTable,
      let build := bbFrameBuild (gsContext mc 2) [true, false, true] 3 []
      build.1 = ok ∧
        bbFrameParseEx (gsContext mc 0) build.2 [] 3 = ⟨ok, [true, false, true], 3⟩ ∧
        bbFrameParseEx (gsContext mc 0) build.2 [] 2 = ⟨errShort, [], 3⟩ := by
  obtain ⟨mc, hmc⟩ : ∃ mc, mc ∈ vlsnrModcodTable := ⟨_, List.mem_cons_self⟩
  have hlen : [true, false, true].length ≤ mc.kBch - bbHeaderBits := by
    obtain ⟨hlow, -⟩ := modcod_geometry mc hmc
    simp only [List.length_cons, List.length_nil, bbHeaderBits]
    omega
  obtain ⟨hret, hparse, -⟩ := gsFrame_round_trip hmc 2 [true, false, true] hlen []
  exact ⟨mc, hmc, hret, hparse 0 [] 3, hparse 0 [] 2⟩

end OpenVlsnr
