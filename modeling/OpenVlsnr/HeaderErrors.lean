import OpenVlsnr.Crc8

/-!
# Damaged frame headers (`bb_frame.c`)

Any frame buffer holds some ten header bytes (`exists_frameHolds`).  Scrambling is an exclusive or
with a fixed sequence, so flipping header bits of the frame flips the same bits of the descrambled
header, and the register of the CRC ends at what the flips alone leave.

`bbHeader_damage_detected`: from a header that passes the check, one to three flips, or any within
eight consecutive bits, give one that both readers refuse.
-/

namespace OpenVlsnr

/-! ### Frames as bytes -/

/-- **Every frame buffer holds a header and a data field.** -/
theorem exists_frameHolds {kBch : ℕ} (hfits : kBch ≤ ldpcNormal) {h d : List Bool}
    (hh : h.length = bbHeaderBits) (hlen : (h ++ d).length = kBch) :
    ∃ bytes data, FrameHolds kBch bytes data (h ++ d) ∧
      bytes.flatMap byteBits = bbScrambleFrom bbPrbsInit h := by
  have hhead : (bbScrambleFrom bbPrbsInit h).length = 8 * 10 := by
    rw [bbScrambleFrom_length, hh]
  refine ⟨(List.range 10).map fun i => bitsByte (bbScrambleFrom bbPrbsInit h) (i * 8),
    bbScrambleFrom (prbsNext^[h.length] bbPrbsInit) d, ⟨rfl, ?_, hfits, ?_⟩, ?_⟩
  · rw [bbScrambleFrom_length, ← hlen, List.length_append, hh]
  · rw [List.take_of_length_le hlen.le, flatMap_byteBits_bitsByte hhead, ← bbScrambleFrom_append,
      bbScrambleFrom_involutive]
  · exact flatMap_byteBits_bitsByte hhead

/-- The check of a header, on the register. -/
theorem FrameHolds.crc_iff_run {kBch : ℕ} {bytes : List Byte} {data frame : List Bool}
    (h : FrameHolds kBch bytes data frame) :
    bbCrc8 (bytes.take 9) = bytes.getD 9 0 ↔ crc8Register.run 0 (bytes.flatMap byteBits) = 0 := by
  have hsplit : bytes.take 9 ++ [bytes.getD 9 0] = bytes := by
    have hlt : 9 < bytes.length := by rw [h.bytes_length]; decide
    rw [← List.getElem_eq_getD (h := hlt) 0, List.take_append_getElem,
      List.take_of_length_le h.bytes_length.le]
  rw [bbCrc8_eq_iff, hsplit]

/-! ### Damage -/

/-- Flips of the 80 header bits: one to three of them, or some within eight consecutive bits. -/
structure HeaderDamage (e : List Bool) : Prop where
  length : e.length = bbHeaderBits
  few : (1 ≤ e.count true ∧ e.count true ≤ 3) ∨ BurstWithin 8 e

/-- The frame with the header bits flipped that `e` marks. -/
def damageHeader (frame e : List Bool) : List Bool :=
  List.zipWith xor (frame.take bbHeaderBits) e ++ frame.drop bbHeaderBits

theorem HeaderDamage.run_ne_zero {e : List Bool} (h : HeaderDamage e) :
    crc8Register.run 0 e ≠ 0 := by
  have hlen := h.length
  refine crc8_detects ?_
  obtain ⟨hlow, hhigh⟩ | hburst := h.few
  · obtain hodd | htwo : e.count true % 2 = 1 ∨ e.count true = 2 := by omega
    · exact Or.inl hodd
    · exact Or.inr (Or.inl ⟨htwo, by rw [hlen]; decide⟩)
  · exact Or.inr (Or.inr ⟨by rw [hlen]; decide, hburst⟩)

/-- Neither reader takes a frame whose descrambled header is off by detected flips. -/
theorem damaged_crc {kBch : ℕ} {bytes : List Byte} {data frame e : List Bool}
    (hlen : frame.length = kBch) (hholds : FrameHolds kBch bytes data frame)
    (hcrc : bbCrc8 (bytes.take 9) = bytes.getD 9 0) (he : HeaderDamage e) :
    ∃ bytes' data', FrameHolds kBch bytes' data' (damageHeader frame e) ∧
      bbCrc8 (bytes'.take 9) ≠ bytes'.getD 9 0 := by
  have hbits := hholds.bits
  have hhead : (frame.take bbHeaderBits).length = bbHeaderBits := by
    rw [List.length_take]
    omega
  have hflipped : (List.zipWith xor (frame.take bbHeaderBits) e).length = bbHeaderBits := by
    rw [List.length_zipWith, hhead, he.length, min_self]
  have htotal : (damageHeader frame e).length = kBch := by
    rw [damageHeader, List.length_append, hflipped, List.length_drop]
    omega
  obtain ⟨bytes', data', hholds', hbytes'⟩ :=
    exists_frameHolds hholds.fits hflipped htotal
  refine ⟨bytes', data', hholds', fun hcrc' => ?_⟩
  -- the descrambled header before the damage
  have hheader : bytes.flatMap byteBits = bbScrambleFrom bbPrbsInit (frame.take bbHeaderBits) := by
    have hframe := congrArg (bbScrambleFrom bbPrbsInit) hholds.frame_eq
    rw [bbScrambleFrom_involutive, List.take_of_length_le hlen.le] at hframe
    have hfirst := congrArg (List.take bbHeaderBits) hframe
    have hlength : (bytes.flatMap byteBits).length = bbHeaderBits := by
      rw [flatMap_byteBits_length, hholds.bytes_length]
      rfl
    rw [List.take_left' hlength] at hfirst
    conv_lhs at hfirst => rw [← List.take_append_drop bbHeaderBits frame, bbScrambleFrom_append]
    rw [← hfirst, List.take_left' (by rw [bbScrambleFrom_length, hhead])]
  rw [hholds'.crc_iff_run, hbytes', bbScrambleFrom_xor, ← hheader,
    crc8Register.run_damaged (by
      rw [flatMap_byteBits_length, hholds.bytes_length, he.length]
      rfl),
    hholds.crc_iff_run.mp hcrc] at hcrc'
  exact he.run_ne_zero (BitVec.xor_eq_zero_iff.mp hcrc').symm

/-- **Damage of up to three header bits, or within eight, is detected** in every frame whose header
passes the check: the parser and the TS receiver return their CRC errors and write nothing. -/
theorem bbHeader_damage_detected {mc : Modcod} (hmc : mc ∈ vlsnrModcodTable)
    {frame : List Bool} (hlen : frame.length = mc.kBch) {r : List Bool × BbHeader}
    (hpasses : bbHeaderRead (bbFrameInit mc .ts) frame = .ok r) {e : List Bool}
    (he : HeaderDamage e) :
    (∀ ctx : BbFrameCtx, ctx.kBch = mc.kBch → ∀ (out : List Bool) (capacity : ℕ),
        bbFrameParseEx ctx (damageHeader frame e) out capacity = ⟨-1, out, 0⟩) ∧
      ∀ rx : TsRx, rx.bb.kBch = mc.kBch → ∀ (packets : List PacketBuf) (capacity : ℕ),
        tsRxPush rx (damageHeader frame e) packets capacity = ⟨errCrc, rx, packets, 0⟩ := by
  obtain ⟨hlow, hfits, -⟩ := modcod_geometry mc hmc
  have hhead : (frame.take bbHeaderBits).length = bbHeaderBits := by
    rw [List.length_take, hlen]
    simp only [bbHeaderBits]
    omega
  obtain ⟨bytes, data, hholds, -⟩ :=
    exists_frameHolds hfits hhead (by rw [List.take_append_drop, hlen])
  rw [List.take_append_drop] at hholds
  have hcrc : bbCrc8 (bytes.take 9) = bytes.getD 9 0 := by
    by_contra hne
    rw [hholds.read_crc rfl hne] at hpasses
    cases hpasses
  obtain ⟨bytes', data', hholds', hcrc'⟩ := damaged_crc hlen hholds hcrc he
  refine ⟨fun ctx hctx out capacity => hholds'.parse_crc hctx hcrc' out capacity,
    fun rx hrx packets capacity => ?_⟩
  rw [tsRxPush, hholds'.read_crc hrx hcrc']

/-- The first header bit flipped in a frame that descrambles to zeros. -/
theorem bbHeader_damage_detected_first :
    ∃ mc ∈ vlsnrModcodTable, ∃ frame e : List Bool, HeaderDamage e ∧
      bbFrameParseEx (bbFrameInit mc .gs) (damageHeader frame e) [] 0 = ⟨-1, [], 0⟩ ∧
        tsRxPush (tsRxInit mc) (damageHeader frame e) [] 0 = ⟨errCrc, tsRxInit mc, [], 0⟩ := by
  obtain ⟨mc, hmc⟩ : ∃ mc, mc ∈ vlsnrModcodTable := ⟨_, List.mem_cons_self⟩
  obtain ⟨hlow, hfits, -⟩ := modcod_geometry mc hmc
  set data := List.replicate (mc.kBch - bbHeaderBits) false with hdata
  set frame := bbScrambleFrom bbPrbsInit ((List.replicate 10 (0 : Byte)).flatMap byteBits ++ data)
    with hframe
  have hbits : bbHeaderBits + data.length = mc.kBch := by
    rw [hdata, List.length_replicate]
    simp only [bbHeaderBits]
    omega
  have hlen : frame.length = mc.kBch := by
    rw [hframe, bbScrambleFrom_length, List.length_append, flatMap_byteBits_length,
      List.length_replicate, ← hbits]
  have hholds : FrameHolds mc.kBch (List.replicate 10 0) data frame :=
    ⟨rfl, hbits, hfits, List.take_of_length_le hlen.le⟩
  have he : HeaderDamage (true :: List.replicate 79 false) :=
    ⟨by decide, Or.inl (by decide)⟩
  have hcrc : bbCrc8 ((List.replicate 10 (0 : Byte)).take 9)
      = (List.replicate 10 (0 : Byte)).getD 9 0 := by decide +kernel
  obtain ⟨hparse, hpush⟩ := bbHeader_damage_detected hmc hlen (hholds.read rfl hcrc) he
  exact ⟨mc, hmc, frame, _, he, hparse _ rfl [] 0, hpush _ rfl [] 0⟩

end OpenVlsnr
