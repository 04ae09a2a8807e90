import OpenVlsnr.BbFrame
import OpenVlsnr.ListGetD

/-!
# Bits, bytes and headers of a BBFRAME

How the byte-level code acts on bits: `orBit` sets one bit, `bitsByte` undoes `byteBits`,
scrambling twice is the identity.  A buffer that holds ten header bytes and a data field
(`FrameHolds`) is read accordingly by the two parsers, `FrameHolds.read` and `FrameHolds.parse`.
From these, `bbHeaderRead_tsFrame`: reading the header of a transmitted TS frame succeeds and
yields what was written, together with the descrambled data field.
-/

namespace OpenVlsnr

/-! ### Bytes -/

/-- `orBit` sets bit `7 - bit` and leaves the others alone. -/
theorem getLsbD_orBit (v : Byte) (bit : ℕ) (x : Bool) (hb : bit < 8) (k : ℕ) :
    (orBit v bit x).getLsbD k = (v.getLsbD k || (decide (k = 7 - bit) && x)) := by
  have hk : (BitVec.setWidth 8 (BitVec.ofBool x) <<< (7 - bit)).getLsbD k
      = (decide (k = 7 - bit) && x) := by
    simp only [BitVec.getLsbD_shiftLeft, BitVec.getLsbD_setWidth, BitVec.getLsbD_ofBool]
    grind
  rw [orBit, BitVec.getLsbD_or, hk]

/-- Bit `k` of a reassembled byte is the buffer bit `7 - k` places after its offset. -/
theorem bitsByte_getLsbD (bits : List Bool) (off k : ℕ) (hk : k < 8) :
    (bitsByte bits off).getLsbD k = bits.getD (off + (7 - k)) false := by
  simp only [bitsByte, List.range, List.range.loop, List.foldl]
  simp only [getLsbD_orBit _ _ _ (show (0 : ℕ) < 8 by decide),
    getLsbD_orBit _ _ _ (show (1 : ℕ) < 8 by decide), getLsbD_orBit _ _ _ (show (2 : ℕ) < 8 by decide),
    getLsbD_orBit _ _ _ (show (3 : ℕ) < 8 by decide), getLsbD_orBit _ _ _ (show (4 : ℕ) < 8 by decide),
    getLsbD_orBit _ _ _ (show (5 : ℕ) < 8 by decide), getLsbD_orBit _ _ _ (show (6 : ℕ) < 8 by decide),
    getLsbD_orBit _ _ _ (show (7 : ℕ) < 8 by decide)]
  interval_cases k <;> simp

/-! ### Scrambling -/

theorem bbScrambleFrom_length (sr : BitVec 16) (xs : List Bool) :
    (bbScrambleFrom sr xs).length = xs.length := by
  induction xs generalizing sr with
  | nil => rfl
  | cons x xs ih => simp [bbScrambleFrom, ih]

/-- The PRBS does not depend on the data, so descrambling is scrambling again. -/
theorem bbScrambleFrom_involutive (sr : BitVec 16) (xs : List Bool) :
    bbScrambleFrom sr (bbScrambleFrom sr xs) = xs := by
  induction xs generalizing sr with
  | nil => rfl
  | cons x xs ih => simp [bbScrambleFrom, ih]

theorem bbScrambleFrom_append (sr : BitVec 16) (xs ys : List Bool) :
    bbScrambleFrom sr (xs ++ ys)
      = bbScrambleFrom sr xs ++ bbScrambleFrom (prbsNext^[xs.length] sr) ys := by
  induction xs generalizing sr with
  | nil => rfl
  | cons x xs ih =>
    rw [List.cons_append, bbScrambleFrom, bbScrambleFrom, ih, List.length_cons,
      Function.iterate_succ_apply]
    rfl

/-- Flipping bits before scrambling or after it. -/
theorem bbScrambleFrom_xor (sr : BitVec 16) (xs es : List Bool) :
    bbScrambleFrom sr (List.zipWith xor xs es) = List.zipWith xor (bbScrambleFrom sr xs) es := by
  induction xs generalizing sr es with
  | nil => rfl
  | cons x xs ih =>
    cases es with
    | nil => rfl
    | cons e es =>
      rw [List.zipWith_cons_cons, bbScrambleFrom, bbScrambleFrom, List.zipWith_cons_cons, ih,
        Bool.xor_right_comm]

/-! ### Byte strings as bits -/

@[simp] theorem byteBits_length (v : Byte) : (byteBits v).length = 8 := by simp [byteBits]

theorem flatMap_byteBits_length (bytes : List Byte) :
    (bytes.flatMap byteBits).length = 8 * bytes.length := by
  induction bytes with
  | nil => rfl
  | cons v vs ih => simp only [List.flatMap_cons, List.length_append, byteBits_length, ih,
      List.length_cons]; ring

theorem getD_flatMap_byteBits (bytes : List Byte) (rest : List Bool) (i b : ℕ)
    (hi : i < bytes.length) (hb : b < 8) :
    (bytes.flatMap byteBits ++ rest).getD (i * 8 + b) false
      = (bytes.getD i 0).getLsbD (7 - b) := by
  induction bytes generalizing i with
  | nil => simp at hi
  | cons v vs ih =>
    rw [List.flatMap_cons, List.append_assoc]
    cases i with
    | zero =>
      rw [List.getD_append _ _ _ _ (by simpa using hb)]
      simp [byteBits, hb]
    | succ i =>
      rw [List.getD_append_right _ _ _ _ (by simp only [byteBits_length]; omega)]
      rw [show (i + 1) * 8 + b - (byteBits v).length = i * 8 + b by simp only [byteBits_length]; omega,
        ih i (by simpa using hi), List.getD_cons_succ]

/-- Serialising bytes and reassembling byte `i` gives byte `i` back. -/
theorem bitsByte_flatMap_byteBits (bytes : List Byte) (rest : List Bool) (i : ℕ)
    (hi : i < bytes.length) :
    bitsByte (bytes.flatMap byteBits ++ rest) (i * 8) = bytes.getD i 0 := by
  apply BitVec.eq_of_getLsbD_eq
  intro k hk
  rw [bitsByte_getLsbD _ _ _ hk, getD_flatMap_byteBits _ _ _ _ hi (by omega),
    show 7 - (7 - k) = k by omega]

/-! ### The header of a TS frame -/

/-- The roll-off code does not touch the two bits the receiver tests. -/
theorem matype1_ts (ro : Byte) : ((0xf0 : Byte) ||| (ro &&& 0x03)) &&& 0xc0 = 0xc0 := by
  revert ro; decide

/-- A `uint16_t` survives being split into two header bytes. -/
theorem uint16_bytes (n : ℕ) (hn : n < 2 ^ 16) :
    (BitVec.ofNat 8 (n >>> 8)).toNat * 256 + (BitVec.ofNat 8 n).toNat = n := by
  simp only [BitVec.toNat_ofNat, Nat.shiftRight_eq_div_pow]
  omega

/-- The `k_bch` bits of a transmitted TS frame: header and data field, scrambled. -/
def tsFrameBits (bb : BbFrameCtx) (syncd : ℕ) (data : List Bool) : List Bool :=
  bbScrambleFrom bbPrbsInit
    ((bbHeaderBytes bb bb.dfl tsPacketBits 0x47 syncd 0xf0).flatMap byteBits ++ data)

theorem bbHeaderBytes_length (ctx : BbFrameCtx) (dfl upl : ℕ) (sync : Byte) (syncd : ℕ)
    (matype1 : Byte) : (bbHeaderBytes ctx dfl upl sync syncd matype1).length = 10 := rfl

/-- The last header byte is the CRC of the nine before it. -/
theorem bbHeaderBytes_crc (ctx : BbFrameCtx) (dfl upl : ℕ) (sync : Byte) (syncd : ℕ)
    (matype1 : Byte) :
    bbCrc8 ((bbHeaderBytes ctx dfl upl sync syncd matype1).take 9)
      = (bbHeaderBytes ctx dfl upl sync syncd matype1).getD 9 0 := by
  simp only [bbHeaderBytes, List.cons_append, List.nil_append, List.take_succ_cons,
    List.take_zero, List.getD_cons_zero, List.getD_cons_succ]

/-! ### What a frame buffer holds -/

/-- The first `k_bch` entries of a frame buffer are these ten header bytes and this data field,
scrambled. -/
structure FrameHolds (kBch : ℕ) (bytes : List Byte) (data frame : List Bool) : Prop where
  bytes_length : bytes.length = bbHeaderLen
  bits : bbHeaderBits + data.length = kBch
  fits : kBch ≤ ldpcNormal
  frame_eq : frame.take kBch = bbScrambleFrom bbPrbsInit (bytes.flatMap byteBits ++ data)

section Holds
variable {kBch : ℕ} {bytes : List Byte} {data frame : List Bool}

theorem FrameHolds.length (h : FrameHolds kBch bytes data frame) :
    (bytes.flatMap byteBits ++ data).length = kBch := by
  rw [List.length_append, flatMap_byteBits_length, h.bytes_length]
  exact h.bits

theorem FrameHolds.descrambled (h : FrameHolds kBch bytes data frame) :
    bbScramble (frame.take kBch) kBch = bytes.flatMap byteBits ++ data := by
  have hlen := h.length
  rw [h.frame_eq, bbScramble, List.take_of_length_le (by rw [bbScrambleFrom_length, hlen]),
    List.drop_of_length_le (by rw [bbScrambleFrom_length, hlen]), bbScrambleFrom_involutive,
    List.append_nil]

/-- Descrambling first shows the data field behind the header. -/
theorem FrameHolds.drop_header (h : FrameHolds kBch bytes data frame) :
    (bytes.flatMap byteBits ++ data).drop bbHeaderBits = data := by
  have hlen : (bytes.flatMap byteBits).length = bbHeaderBits := by
    rw [flatMap_byteBits_length, h.bytes_length]
    rfl
  rw [List.drop_append_of_le_length hlen.ge, List.drop_of_length_le hlen.le, List.nil_append]

theorem FrameHolds.byte (h : FrameHolds kBch bytes data frame) {i : ℕ} (hi : i < 10) :
    bitsByte (bytes.flatMap byteBits ++ data) (i * 8) = bytes.getD i 0 :=
  bitsByte_flatMap_byteBits bytes data i (by rw [h.bytes_length]; exact hi)

/-- The nine bytes that the CRC covers. -/
theorem FrameHolds.covered (h : FrameHolds kBch bytes data frame) :
    (List.range 9).map (fun i => bitsByte (bytes.flatMap byteBits ++ data) (i * 8))
      = bytes.take 9 := by
  have hlen : (bytes.take 9).length = 9 := by rw [List.length_take, h.bytes_length]; rfl
  refine list_ext_getD 0 (by rw [List.length_map, List.length_range, hlen]) fun i hi => ?_
  rw [List.length_map, List.length_range] at hi
  rw [getD_map_range, if_pos hi, h.byte (by omega), getD_take hi]

/-- The test that both readers make. -/
theorem FrameHolds.crc_iff (h : FrameHolds kBch bytes data frame) :
    bbCrc8 ((List.range 9).map fun i => bitsByte (bytes.flatMap byteBits ++ data) (i * 8))
        = bitsByte (bytes.flatMap byteBits ++ data) (9 * 8)
      ↔ bbCrc8 (bytes.take 9) = bytes.getD 9 0 := by
  rw [h.covered, h.byte (by decide)]

/-- **Reading a header** with the right CRC: its fields, and the descrambled buffer. -/
theorem FrameHolds.read (h : FrameHolds kBch bytes data frame) {ctx : BbFrameCtx}
    (hctx : ctx.kBch = kBch) (hcrc : bbCrc8 (bytes.take 9) = bytes.getD 9 0) :
    bbHeaderRead ctx frame = .ok (bytes.flatMap byteBits ++ data,
      { matype1 := bytes.getD 0 0
        matype2 := bytes.getD 1 0
        upl := (bytes.getD 2 0).toNat * 256 + (bytes.getD 3 0).toNat
        dfl := (bytes.getD 4 0).toNat * 256 + (bytes.getD 5 0).toNat
        sync := bytes.getD 6 0
        syncd := (bytes.getD 7 0).toNat * 256 + (bytes.getD 8 0).toNat
        crc8 := bytes.getD 9 0 }) := by
  have hfits := h.fits
  unfold bbHeaderRead
  rw [if_neg (by omega), hctx, h.descrambled]
  refine (if_neg (not_not.mpr (h.crc_iff.mpr hcrc))).trans ?_
  dsimp only
  rw [h.byte (i := 0) (by decide), h.byte (i := 1) (by decide), h.byte (i := 2) (by decide),
    h.byte (i := 3) (by decide), h.byte (i := 4) (by decide), h.byte (i := 5) (by decide),
    h.byte (i := 6) (by decide), h.byte (i := 7) (by decide), h.byte (i := 8) (by decide),
    h.byte (i := 9) (by decide)]

/-- A header with a wrong CRC is not read. -/
theorem FrameHolds.read_crc (h : FrameHolds kBch bytes data frame) {ctx : BbFrameCtx}
    (hctx : ctx.kBch = kBch) (hcrc : bbCrc8 (bytes.take 9) ≠ bytes.getD 9 0) :
    bbHeaderRead ctx frame = .error errCrc := by
  have hfits := h.fits
  unfold bbHeaderRead
  rw [if_neg (by omega), hctx, h.descrambled]
  exact if_pos (h.crc_iff.not.mpr hcrc)

/-- **Parsing a generic stream**, the second reader of the same bytes. -/
theorem FrameHolds.parse (h : FrameHolds kBch bytes data frame) {ctx : BbFrameCtx}
    (hctx : ctx.kBch = kBch) (hcrc : bbCrc8 (bytes.take 9) = bytes.getD 9 0)
    (userData : List Bool) (userCapacity : ℕ) :
    bbFrameParseEx ctx frame userData userCapacity =
      if bytes.getD 0 0 &&& 0xc0 ≠ 0x40 ∨ bytes.getD 2 0 ≠ 0 ∨ bytes.getD 3 0 ≠ 0 then
        ⟨errParam, userData, 0⟩
      else
        let dfl := (bytes.getD 4 0).toNat * 256 + (bytes.getD 5 0).toNat
        let dfl := if dfl > kBch - bbHeaderBits then (kBch - bbHeaderBits) % 2 ^ 16 else dfl
        if userCapacity < dfl then ⟨errShort, userData, dfl⟩
        else ⟨ok, memcpyAt userData 0 (data.take dfl), dfl⟩ := by
  have hfits := h.fits
  unfold bbFrameParseEx
  rw [if_neg (by omega), hctx, h.descrambled]
  refine (if_neg (not_not.mpr (h.crc_iff.mpr hcrc))).trans ?_
  simp only [h.byte (i := 0) (by decide), h.byte (i := 2) (by decide),
    h.byte (i := 3) (by decide), h.byte (i := 4) (by decide), h.byte (i := 5) (by decide),
    h.drop_header]

theorem FrameHolds.parse_crc (h : FrameHolds kBch bytes data frame) {ctx : BbFrameCtx}
    (hctx : ctx.kBch = kBch) (hcrc : bbCrc8 (bytes.take 9) ≠ bytes.getD 9 0)
    (userData : List Bool) (userCapacity : ℕ) :
    bbFrameParseEx ctx frame userData userCapacity = ⟨-1, userData, 0⟩ := by
  have hfits := h.fits
  unfold bbFrameParseEx
  rw [if_neg (by omega), hctx, h.descrambled]
  exact if_pos (h.crc_iff.not.mpr hcrc)

end Holds

/-! ### Transmitted TS frames -/

/-- What the transmitter leaves in the first `k_bch` entries of the frame buffer does not depend
on what was there before. -/
theorem tsTxFrame_take (bb : BbFrameCtx) (syncd : ℕ) (data buf : List Bool)
    (hd : data.length = bb.dfl) (hk : bb.kBch = bbHeaderBits + bb.dfl) :
    (tsTxFrame bb syncd data buf).take bb.kBch = tsFrameBits bb syncd data := by
  have hh : ((bbHeaderBytes bb bb.dfl tsPacketBits 0x47 syncd 0xf0).flatMap byteBits).length
      = bbHeaderBits := by rw [flatMap_byteBits_length, bbHeaderBytes_length]
  have hl : (((bbHeaderBytes bb bb.dfl tsPacketBits 0x47 syncd 0xf0).flatMap byteBits)
      ++ data).length = bb.kBch := by rw [List.length_append, hh, hd, hk]
  simp only [tsTxFrame, bbScramble, bbHeaderWrite, memcpyAt, List.take_zero, List.nil_append]
  rw [List.take_append_of_le_length (le_of_eq hh.symm), List.take_of_length_le (le_of_eq hh),
    List.take_append_of_le_length (le_of_eq hl.symm), List.take_of_length_le (le_of_eq hl),
    List.take_append_of_le_length (by rw [bbScrambleFrom_length, hl]),
    List.take_of_length_le (by rw [bbScrambleFrom_length, hl])]
  rfl

theorem tsFrame_holds (bb : BbFrameCtx) (syncd : ℕ) (data frame : List Bool)
    (hd : data.length = bb.dfl) (hk : bb.kBch = bbHeaderBits + bb.dfl)
    (hn : bb.kBch ≤ ldpcNormal) (hf : frame.take bb.kBch = tsFrameBits bb syncd data) :
    FrameHolds bb.kBch (bbHeaderBytes bb bb.dfl tsPacketBits 0x47 syncd 0xf0) data frame where
  bytes_length := bbHeaderBytes_length _ _ _ _ _ _
  bits := by rw [hd, hk]
  fits := hn
  frame_eq := hf

/-- **Reading back a transmitted header.**  The CRC matches, every field is the one written, and
the descrambled buffer is the header followed by the data field. -/
theorem bbHeaderRead_tsFrame (rx tx : BbFrameCtx) (syncd : ℕ) (data frame : List Bool)
    (hrx : rx.kBch = tx.kBch) (hd : data.length = tx.dfl) (hk : tx.kBch = bbHeaderBits + tx.dfl)
    (hn : tx.kBch ≤ ldpcNormal) (hs : syncd < 2 ^ 16)
    (hf : frame.take tx.kBch = tsFrameBits tx syncd data) :
    bbHeaderRead rx frame = .ok
      ((bbHeaderBytes tx tx.dfl tsPacketBits 0x47 syncd 0xf0).flatMap byteBits ++ data,
        { matype1 := 0xf0 ||| (tx.ro &&& 0x03), matype2 := 0, upl := tsPacketBits, dfl := tx.dfl,
          sync := 0x47, syncd := syncd,
          crc8 := (bbHeaderBytes tx tx.dfl tsPacketBits 0x47 syncd 0xf0).getD 9 0 }) := by
  have hholds := tsFrame_holds tx syncd data frame hd hk hn hf
  rw [hholds.read hrx (bbHeaderBytes_crc _ _ _ _ _ _)]
  have hdfl := uint16_bytes tx.dfl (by simp only [ldpcNormal, bbHeaderBits] at *; omega)
  have hsyn := uint16_bytes syncd hs
  have hupl := uint16_bytes tsPacketBits (by decide)
  simp only [bbHeaderBytes, List.getD_cons_zero, List.getD_cons_succ, List.cons_append,
    List.nil_append, hdfl, hsyn, hupl]

end OpenVlsnr
