import OpenVlsnr.BbFrame
import OpenVlsnr.Crc32
import OpenVlsnr.ListGetD

/-!
# Network frames (`protocol.c`)

`dvbs2x_frame_encode` and `dvbs2x_frame_decode` over buffers of bytes.  The decoder's reads are
checked: a read past the end of the buffer has no result.  Between the two stands the wire format,
`WireFrame`: a header that names its payload, and the bytes it is sent as.  The encoder writes the
bytes of one (`frameEncode_eq`), the decoder accepts the buffers that begin with one
(`frameCheck_ok`, `frameCheck_bytes`), so each direction of the codec is a fact about
`WireFrame.bytes`.

* `frame_round_trip` - decoding undoes encoding, and neither side leaves its buffer;
* `frameDecode_reencodes_iff` - the accepted frames that the encoder sends.
-/

namespace OpenVlsnr

/-! ### Constants -/

abbrev errInval : ℤ := -22
abbrev errNospc : ℤ := -28
abbrev errBadmsg : ℤ := -74

abbrev frameMagic : BitVec 32 := 0x53325856
abbrev frameHeaderSize : ℕ := 16
abbrev frameCrcSize : ℕ := 4
abbrev frameMaxPayload : ℕ := 65520

/-- `DVBS2X_FRAME_BBFRAME`, the last frame type. -/
abbrev frameBbframe : ℕ := 2

/-! ### Network order -/

/-- `htonl`, as the four bytes that are stored. -/
def htonl (v : BitVec 32) : List Byte :=
  [v.extractLsb' 24 8, v.extractLsb' 16 8, v.extractLsb' 8 8, v.extractLsb' 0 8]

/-- `htons`, as the two bytes that are stored. -/
def htons (v : BitVec 16) : List Byte := [v.extractLsb' 8 8, v.extractLsb' 0 8]

/-- `ntohl` of the four bytes that are loaded. -/
def ntohl (l : List Byte) : BitVec 32 := l.getD 0 0 ++ l.getD 1 0 ++ l.getD 2 0 ++ l.getD 3 0

/-- `ntohs` of the two bytes that are loaded. -/
def ntohs (l : List Byte) : BitVec 16 := l.getD 0 0 ++ l.getD 1 0

@[simp] theorem length_htonl (v : BitVec 32) : (htonl v).length = 4 := rfl

@[simp] theorem length_htons (v : BitVec 16) : (htons v).length = 2 := rfl

@[simp] theorem ntohl_htonl (v : BitVec 32) : ntohl (htonl v) = v := by
  refine BitVec.eq_of_getLsbD_eq fun i hi => ?_
  simp only [ntohl, htonl, List.getD_cons_zero, List.getD_cons_succ, BitVec.getLsbD_append,
    BitVec.getLsbD_extractLsb']
  interval_cases i <;> simp

@[simp] theorem ntohs_htons (v : BitVec 16) : ntohs (htons v) = v := by
  refine BitVec.eq_of_getLsbD_eq fun i hi => ?_
  simp only [ntohs, htons, List.getD_cons_zero, List.getD_cons_succ, BitVec.getLsbD_append,
    BitVec.getLsbD_extractLsb']
  interval_cases i <;> simp

theorem htonl_ntohl (l : List Byte) :
    htonl (ntohl l) = [l.getD 0 0, l.getD 1 0, l.getD 2 0, l.getD 3 0] := by
  simp only [htonl, ntohl, List.cons.injEq, and_true]
  refine ⟨?_, ?_, ?_, ?_⟩ <;> refine BitVec.eq_of_getLsbD_eq fun i hi => ?_ <;>
    simp only [BitVec.getLsbD_append, BitVec.getLsbD_extractLsb'] <;> interval_cases i <;> simp

theorem htonl_ntohl_of_length {l : List Byte} (hlen : l.length = 4) : htonl (ntohl l) = l := by
  obtain ⟨a, b, c, d, rfl⟩ := List.length_eq_four.mp hlen
  exact htonl_ntohl [a, b, c, d]

theorem htons_ntohs (l : List Byte) : htons (ntohs l) = [l.getD 0 0, l.getD 1 0] := by
  simp only [htons, ntohs, List.cons.injEq, and_true]
  refine ⟨?_, ?_⟩ <;> refine BitVec.eq_of_getLsbD_eq fun i hi => ?_ <;>
    simp only [BitVec.getLsbD_append, BitVec.getLsbD_extractLsb'] <;> interval_cases i <;> simp

/-! ### The header -/

/-- `struct dvbs2x_frame_header`. -/
@[ext] structure FrameHeader where
  magic : BitVec 32
  sequence : BitVec 32
  payloadLen : BitVec 16
  frameType : Byte
  flags : Byte
  fragOffset : BitVec 16
  streamId : BitVec 16

/-- The packed header in memory. -/
def FrameHeader.bytes (h : FrameHeader) : List Byte :=
  htonl h.magic ++ htonl h.sequence ++ htons h.payloadLen ++ [h.frameType, h.flags]
    ++ htons h.fragOffset ++ htons h.streamId

/-- The header of 16 bytes of memory. -/
def FrameHeader.read (l : List Byte) : FrameHeader where
  magic := ntohl l
  sequence := ntohl (l.drop 4)
  payloadLen := ntohs (l.drop 8)
  frameType := l.getD 10 0
  flags := l.getD 11 0
  fragOffset := ntohs (l.drop 12)
  streamId := ntohs (l.drop 14)

@[simp] theorem FrameHeader.length_bytes (h : FrameHeader) : h.bytes.length = 16 := rfl

@[simp] theorem FrameHeader.read_bytes (h : FrameHeader) : FrameHeader.read h.bytes = h := by
  refine FrameHeader.ext ?_ ?_ ?_ rfl rfl ?_ ?_
  · exact ntohl_htonl h.magic
  · exact ntohl_htonl h.sequence
  · exact ntohs_htons h.payloadLen
  · exact ntohs_htons h.fragOffset
  · exact ntohs_htons h.streamId

theorem FrameHeader.bytes_read {l : List Byte} (hlen : l.length = 16) :
    (FrameHeader.read l).bytes = l := by
  have hcells : (FrameHeader.read l).bytes = (List.range 16).map fun i => l.getD i 0 := by
    simp only [FrameHeader.bytes, FrameHeader.read, htonl_ntohl, htons_ntohs, getD_drop]
    rfl
  rw [hcells]
  refine List.ext_getElem (by simp [hlen]) fun i _ hi => ?_
  rw [List.getElem_map, List.getElem_range, List.getD_eq_getElem l 0 hi]

theorem FrameHeader.bytes_injective : Function.Injective FrameHeader.bytes := fun h h' heq => by
  rw [← h.read_bytes, heq, h'.read_bytes]

/-! ### The code -/

/-- `dvbs2x_frame_encode`: the return value and the buffer after the call.  A null payload is
`none`. -/
def frameEncode (buf : List Byte) (payload : Option (List Byte)) (frameType : ℕ)
    (sequence : BitVec 32) (streamId : BitVec 16) : ℤ × List Byte :=
  match payload with
  | none => (errInval, buf)
  | some payload =>
    if payload.length > frameMaxPayload then (errInval, buf)
    else if frameType > frameBbframe then (errInval, buf)
    else
      let totalSize := frameHeaderSize + payload.length + frameCrcSize
      if buf.length < totalSize then (errNospc, buf)
      else
        let hdr : FrameHeader :=
          { magic := frameMagic
            sequence := sequence
            payloadLen := BitVec.ofNat 16 payload.length
            frameType := BitVec.ofNat 8 frameType
            flags := 0
            fragOffset := 0
            streamId := streamId }
        let buf := memcpyAt buf 0 hdr.bytes
        let buf := memcpyAt buf frameHeaderSize payload
        -- the CRC covers the header from the sequence number on, and the payload
        let crc := crc32 ((buf.drop 4).take (frameHeaderSize - 4 + payload.length))
        (totalSize, memcpyAt buf (frameHeaderSize + payload.length) (htonl crc))

/-- What the decoder returns through its pointers. -/
structure FrameMeta where
  frameType : ℕ
  sequence : BitVec 32
  streamId : BitVec 16
  deriving DecidableEq

/-- The return value, the payload buffer after the call, and what is returned through the
pointers. -/
structure FrameDecode where
  ret : ℤ
  payload : Option (List Byte)
  info : Option FrameMeta
  deriving DecidableEq

/-- A load of `n` bytes: there is none past the end of the buffer. -/
def readBytes (buf : List Byte) (off n : ℕ) : Option (List Byte) :=
  if off + n ≤ buf.length then some ((buf.drop off).take n) else none

/-- The checks of `dvbs2x_frame_decode`: an error code, or the header of an intact frame. -/
def frameCheck (buf : List Byte) : Option (Except ℤ FrameHeader) :=
  if buf.length < frameHeaderSize + frameCrcSize then some (.error errInval)
  else do
    let hdr := FrameHeader.read (← readBytes buf 0 frameHeaderSize)
    let plen := hdr.payloadLen.toNat
    if hdr.magic ≠ frameMagic then some (.error errInval)
    else if plen > frameMaxPayload then some (.error errInval)
    else if buf.length < frameHeaderSize + plen + frameCrcSize then some (.error errInval)
    else do
      let crcExpected := crc32 (← readBytes buf 4 (frameHeaderSize - 4 + plen))
      let crcActual := ntohl (← readBytes buf (frameHeaderSize + plen) 4)
      if crcExpected ≠ crcActual then some (.error errBadmsg) else some (.ok hdr)

/-- `dvbs2x_frame_decode`.  A null payload buffer is `none`, for a check only. -/
def frameDecode (buf : List Byte) (payload : Option (List Byte)) : Option FrameDecode := do
  match ← frameCheck buf with
  | .error ret => some ⟨ret, payload, none⟩
  | .ok hdr =>
    let plen := hdr.payloadLen.toNat
    let info : FrameMeta := ⟨hdr.frameType.toNat, hdr.sequence, hdr.streamId⟩
    match payload with
    | none => some ⟨plen, none, some info⟩
    | some dst =>
      if dst.length < plen then some ⟨errNospc, payload, none⟩
      else do
        let src ← readBytes buf frameHeaderSize plen
        some ⟨plen, some (memcpyAt dst 0 src), some info⟩

/-! ### The wire format -/

/-- A frame as it travels: its header names the payload's length, and it fits. -/
structure WireFrame where
  hdr : FrameHeader
  payload : List Byte
  magic_eq : hdr.magic = frameMagic
  len_eq : hdr.payloadLen.toNat = payload.length
  len_le : payload.length ≤ frameMaxPayload

/-- What the CRC covers. -/
def WireFrame.covered (f : WireFrame) : List Byte := f.hdr.bytes.drop 4 ++ f.payload

/-- The bytes of a frame. -/
def WireFrame.bytes (f : WireFrame) : List Byte :=
  f.hdr.bytes ++ f.payload ++ htonl (crc32 f.covered)

/-- What the decoder returns of a frame. -/
def WireFrame.info (f : WireFrame) : FrameMeta :=
  ⟨f.hdr.frameType.toNat, f.hdr.sequence, f.hdr.streamId⟩

/-- The frame that the encoder makes of its arguments. -/
def WireFrame.ofArgs (payload : List Byte) (frameType : ℕ) (sequence : BitVec 32)
    (streamId : BitVec 16) (hlen : payload.length ≤ frameMaxPayload) : WireFrame where
  hdr :=
    { magic := frameMagic
      sequence := sequence
      payloadLen := BitVec.ofNat 16 payload.length
      frameType := BitVec.ofNat 8 frameType
      flags := 0
      fragOffset := 0
      streamId := streamId }
  payload := payload
  magic_eq := rfl
  len_eq := by
    rw [BitVec.toNat_ofNat]
    exact Nat.mod_eq_of_lt (hlen.trans_lt (by decide))
  len_le := hlen

@[simp] theorem WireFrame.length_bytes (f : WireFrame) :
    f.bytes.length = f.payload.length + 20 := by
  simp only [WireFrame.bytes, List.length_append, FrameHeader.length_bytes, length_htonl]
  omega

theorem WireFrame.bytes_eq_iff (f g : WireFrame) (hpayload : f.payload = g.payload) :
    f.bytes = g.bytes ↔ f.hdr = g.hdr := by
  constructor
  · intro h
    have hhead := congrArg (List.take 16) h
    simp only [WireFrame.bytes, List.append_assoc] at hhead
    rw [List.take_left' f.hdr.length_bytes, List.take_left' g.hdr.length_bytes] at hhead
    exact FrameHeader.bytes_injective hhead
  · intro h
    simp only [WireFrame.bytes, WireFrame.covered, h, hpayload]

/-! ### The encoder writes a frame -/

/-- A copy over the middle of a buffer. -/
theorem memcpyAt_append {α : Type*} (before : List α) {old src : List α} {off : ℕ}
    (hoff : before.length = off) (hlen : old.length = src.length) (after : List α) :
    memcpyAt (before ++ (old ++ after)) off src = before ++ (src ++ after) := by
  have hend : (before ++ old).length = off + src.length := by rw [List.length_append, hoff, hlen]
  rw [memcpyAt, List.take_left' hoff, ← List.append_assoc before old, List.drop_left' hend,
    List.append_assoc]

/-- The regions of a buffer that holds a frame of `n` payload bytes. -/
theorem exists_regions (buf : List Byte) (n : ℕ) (hsize : n + 20 ≤ buf.length) :
    ∃ hb pl tr : List Byte, hb.length = 16 ∧ pl.length = n ∧ tr.length = 4 ∧
      buf = hb ++ (pl ++ (tr ++ buf.drop (n + 20))) := by
  have hrest : buf.drop (n + 20) = ((buf.drop 16).drop n).drop 4 := by
    rw [List.drop_drop, List.drop_drop]
    congr 1
    omega
  refine ⟨buf.take 16, (buf.drop 16).take n, ((buf.drop 16).drop n).take 4, ?_, ?_, ?_, ?_⟩
  · rw [List.length_take]
    omega
  · rw [List.length_take, List.length_drop]
    omega
  · rw [List.length_take, List.length_drop, List.length_drop]
    omega
  · rw [hrest, List.take_append_drop, List.take_append_drop, List.take_append_drop]

/-- **The encoder**: it fills the start of its buffer with the frame. -/
theorem frameEncode_eq {buf payload : List Byte} {frameType : ℕ} (sequence : BitVec 32)
    (streamId : BitVec 16) (hlen : payload.length ≤ frameMaxPayload)
    (htype : frameType ≤ frameBbframe) (hsize : payload.length + 20 ≤ buf.length) :
    frameEncode buf (some payload) frameType sequence streamId
      = (((payload.length + 20 : ℕ) : ℤ),
          (WireFrame.ofArgs payload frameType sequence streamId hlen).bytes
            ++ buf.drop (payload.length + 20)) := by
  obtain ⟨hb, pl, tr, hhb, hpl, htr, hbuf⟩ := exists_regions buf payload.length hsize
  set rest := buf.drop (payload.length + 20)
  set f := WireFrame.ofArgs payload frameType sequence streamId hlen with hf
  have hsize' : ¬ buf.length < frameHeaderSize + payload.length + frameCrcSize := by
    simp only [frameHeaderSize, frameCrcSize]
    omega
  -- write 1: the header
  have hheader : memcpyAt buf 0 f.hdr.bytes = f.hdr.bytes ++ (pl ++ (tr ++ rest)) := by
    conv_lhs => rw [hbuf]
    exact memcpyAt_append [] rfl hhb _
  -- write 2: the payload
  have hpayload : memcpyAt (f.hdr.bytes ++ (pl ++ (tr ++ rest))) frameHeaderSize payload
      = f.hdr.bytes ++ (payload ++ (tr ++ rest)) :=
    memcpyAt_append _ f.hdr.length_bytes hpl _
  -- write 3: the CRC
  have hcovered : ((f.hdr.bytes ++ (payload ++ (tr ++ rest))).drop 4).take
      (frameHeaderSize - 4 + payload.length) = f.covered := by
    have hdrop : (f.hdr.bytes ++ (payload ++ (tr ++ rest))).drop 4
        = f.covered ++ (tr ++ rest) := by
      rw [List.drop_append_of_le_length (by rw [f.hdr.length_bytes]; decide), WireFrame.covered,
        List.append_assoc]
      rfl
    have hcount : f.covered.length = frameHeaderSize - 4 + payload.length := by
      rw [WireFrame.covered, List.length_append, List.length_drop, f.hdr.length_bytes]
      rfl
    rw [hdrop, List.take_left' hcount]
  have htrailer : memcpyAt (f.hdr.bytes ++ (payload ++ (tr ++ rest)))
      (frameHeaderSize + payload.length) (htonl (crc32 f.covered)) = f.bytes ++ rest := by
    have hoff : (f.hdr.bytes ++ payload).length = frameHeaderSize + payload.length := by
      rw [List.length_append, f.hdr.length_bytes]
    rw [← List.append_assoc, memcpyAt_append _ hoff htr, ← List.append_assoc]
    rfl
  unfold frameEncode
  dsimp only
  rw [if_neg (Nat.not_lt.mpr hlen), if_neg (Nat.not_lt.mpr htype), if_neg hsize']
  refine Prod.ext ?_ ?_
  · show ((_ : ℕ) : ℤ) = _
    congr 1
    simp only [frameHeaderSize, frameCrcSize]
    omega
  · show (let b := memcpyAt (memcpyAt buf 0 f.hdr.bytes) frameHeaderSize payload
      memcpyAt b _ (htonl (crc32 ((b.drop 4).take _)))) = _
    rw [hheader, hpayload]
    dsimp only
    rw [hcovered, htrailer]

/-- **A rejected call leaves the buffer alone.** -/
theorem frameEncode_rejects {buf : List Byte} {payload : Option (List Byte)} {frameType : ℕ}
    {sequence : BitVec 32} {streamId : BitVec 16}
    (hret : (frameEncode buf payload frameType sequence streamId).1 < 0) :
    (frameEncode buf payload frameType sequence streamId).2 = buf := by
  unfold frameEncode at hret ⊢
  cases payload with
  | none => rfl
  | some payload =>
    dsimp only at hret ⊢
    split_ifs at hret ⊢
    · rfl
    · rfl
    · rfl
    · exact absurd hret (by omega)

/-- The encoder takes no other frame types. -/
theorem frameEncode_type {buf : List Byte} {payload : Option (List Byte)} {frameType : ℕ}
    {sequence : BitVec 32} {streamId : BitVec 16}
    (hret : 0 ≤ (frameEncode buf payload frameType sequence streamId).1) :
    frameType ≤ frameBbframe := by
  have hneg : errInval < 0 := by decide
  refine not_lt.mp fun htype => absurd hret (not_le.mpr ?_)
  cases payload with
  | none => exact hneg
  | some payload =>
    unfold frameEncode
    dsimp only
    by_cases hlen : payload.length > frameMaxPayload
    · rw [if_pos hlen]
      exact hneg
    · rw [if_neg hlen, if_pos htype]
      exact hneg

/-- **An accepted call** has written a frame, and returned its length. -/
theorem frameEncode_ok {buf out : List Byte} {payload : Option (List Byte)} {frameType total : ℕ}
    {sequence : BitVec 32} {streamId : BitVec 16}
    (h : frameEncode buf payload frameType sequence streamId = ((total : ℤ), out)) :
    ∃ f : WireFrame, total = f.payload.length + 20 ∧ out.take total = f.bytes := by
  have hret : 0 ≤ (frameEncode buf payload frameType sequence streamId).1 := by
    rw [h]
    exact Int.natCast_nonneg total
  have htype := frameEncode_type hret
  have hinval : ¬ 0 ≤ errInval := by decide
  have hnospc : ¬ 0 ≤ errNospc := by decide
  cases payload with
  | none => exact absurd hret hinval
  | some payload =>
    have hlen : payload.length ≤ frameMaxPayload := by
      refine not_lt.mp fun hlt => ?_
      rw [frameEncode, if_pos hlt] at hret
      exact hinval hret
    have hsize : payload.length + 20 ≤ buf.length := by
      refine not_lt.mp fun hlt => ?_
      rw [frameEncode, if_neg (Nat.not_lt.mpr hlen), if_neg (Nat.not_lt.mpr htype)] at hret
      dsimp only at hret
      rw [if_pos (by simp only [frameHeaderSize, frameCrcSize]; omega)] at hret
      exact hnospc hret
    rw [frameEncode_eq sequence streamId hlen htype hsize] at h
    obtain ⟨htotal, rfl⟩ := Prod.ext_iff.mp h
    obtain rfl := Int.natCast_inj.mp htotal
    let f := WireFrame.ofArgs payload frameType sequence streamId hlen
    exact ⟨f, rfl, List.take_left' f.length_bytes⟩

/-! ### The decoder accepts the frames -/

theorem readBytes_of_le {buf : List Byte} {off n : ℕ} (h : off + n ≤ buf.length) :
    readBytes buf off n = some ((buf.drop off).take n) :=
  if_pos h

/-- A load from the middle of a buffer. -/
theorem readBytes_append (before : List Byte) {l : List Byte} {off n : ℕ}
    (hoff : before.length = off) (hlen : l.length = n) (after : List Byte) :
    readBytes (before ++ (l ++ after)) off n = some l := by
  rw [readBytes_of_le (by simp only [List.length_append]; omega), List.drop_left' hoff,
    List.take_left' hlen]

/-- The regions of a buffer, as the decoder finds them: the header is intact, and names a payload
that is there. -/
structure FrameRegions (buf hb pl tr rest : List Byte) : Prop where
  buf_eq : buf = hb ++ (pl ++ (tr ++ rest))
  length_hb : hb.length = 16
  length_tr : tr.length = 4
  magic_eq : (FrameHeader.read hb).magic = frameMagic
  len_eq : (FrameHeader.read hb).payloadLen.toNat = pl.length
  len_le : pl.length ≤ frameMaxPayload

/-- **There the CRC decides.** -/
theorem FrameRegions.check {buf hb pl tr rest : List Byte}
    (h : FrameRegions buf hb pl tr rest) :
    frameCheck buf = some (if crc32 (hb.drop 4 ++ pl) ≠ ntohl tr then .error errBadmsg
      else .ok (FrameHeader.read hb)) := by
  have hlength : buf.length = 16 + pl.length + 4 + rest.length := by
    simp only [h.buf_eq, List.length_append, h.length_hb, h.length_tr]
    omega
  have hheader : readBytes buf 0 frameHeaderSize = some hb := by
    rw [h.buf_eq]
    exact readBytes_append [] rfl h.length_hb _
  have hcovered : readBytes buf 4 (frameHeaderSize - 4 + pl.length) = some (hb.drop 4 ++ pl) := by
    have hbuf : buf = hb.take 4 ++ ((hb.drop 4 ++ pl) ++ (tr ++ rest)) := by
      rw [h.buf_eq, List.append_assoc, ← List.append_assoc (hb.take 4), List.take_append_drop]
    rw [hbuf]
    refine readBytes_append _ ?_ ?_ _
    · rw [List.length_take, h.length_hb]
      rfl
    · rw [List.length_append, List.length_drop, h.length_hb]
  have htrailer : readBytes buf (frameHeaderSize + pl.length) 4 = some tr := by
    rw [h.buf_eq, ← List.append_assoc]
    exact readBytes_append _ (by rw [List.length_append, h.length_hb]) h.length_tr _
  unfold frameCheck
  rw [if_neg (by simp only [frameHeaderSize, frameCrcSize]; omega), hheader]
  simp only [Option.bind_eq_bind, Option.bind_some, h.len_eq, hcovered, htrailer]
  rw [if_neg (not_not.mpr h.magic_eq), if_neg (Nat.not_lt.mpr h.len_le),
    if_neg (by simp only [frameHeaderSize, frameCrcSize]; omega), apply_ite some]

/-- The frame that an accepted buffer begins with. -/
def FrameRegions.frame {buf hb pl tr rest : List Byte} (h : FrameRegions buf hb pl tr rest) :
    WireFrame where
  hdr := FrameHeader.read hb
  payload := pl
  magic_eq := h.magic_eq
  len_eq := h.len_eq
  len_le := h.len_le

theorem FrameRegions.bytes_frame {buf hb pl tr rest : List Byte}
    (h : FrameRegions buf hb pl tr rest) (hcrc : crc32 (hb.drop 4 ++ pl) = ntohl tr) :
    h.frame.bytes = hb ++ pl ++ tr := by
  have hbytes : h.frame.hdr.bytes = hb := FrameHeader.bytes_read h.length_hb
  have hcovered : h.frame.covered = hb.drop 4 ++ pl := by
    rw [WireFrame.covered, hbytes]
    rfl
  rw [WireFrame.bytes, hbytes, hcovered, hcrc, htonl_ntohl_of_length h.length_tr]
  rfl

/-- **The decoder's checks fail, or reach the CRC**; no load is outside of the buffer. -/
theorem frameCheck_cases (buf : List Byte) :
    frameCheck buf = some (.error errInval)
      ∨ ∃ hb pl tr rest, FrameRegions buf hb pl tr rest := by
  by_cases hmin : buf.length < frameHeaderSize + frameCrcSize
  · left
    rw [frameCheck, if_pos hmin]
  have hheader : readBytes buf 0 frameHeaderSize = some (buf.take 16) := by
    rw [readBytes_of_le (by simp only [frameHeaderSize, frameCrcSize] at hmin ⊢; omega)]
    rfl
  have hcheck := frameCheck.eq_1 buf
  rw [if_neg hmin, hheader] at hcheck
  simp only [Option.bind_eq_bind, Option.bind_some] at hcheck
  by_cases hmagic : (FrameHeader.read (buf.take 16)).magic = frameMagic
  swap
  · left
    rw [hcheck, if_pos hmagic]
  by_cases hmax : (FrameHeader.read (buf.take 16)).payloadLen.toNat > frameMaxPayload
  · left
    rw [hcheck, if_neg (not_not.mpr hmagic), if_pos hmax]
  by_cases hsize : buf.length < frameHeaderSize
      + (FrameHeader.read (buf.take 16)).payloadLen.toNat + frameCrcSize
  · left
    rw [hcheck, if_neg (not_not.mpr hmagic), if_neg hmax, if_pos hsize]
  right
  obtain ⟨hb, pl, tr, hhb, hpl, htr, hbuf⟩ := exists_regions buf
    (FrameHeader.read (buf.take 16)).payloadLen.toNat
    (by simp only [frameHeaderSize, frameCrcSize] at hsize; omega)
  have htake : buf.take 16 = hb := by
    rw [hbuf, List.take_left' hhb]
  rw [htake] at hmagic hmax hpl hbuf
  exact ⟨hb, pl, tr, _, hbuf, hhb, htr, hmagic, hpl.symm, by omega⟩

/-- The regions of a frame's own bytes. -/
theorem WireFrame.regions (f : WireFrame) (rest : List Byte) :
    FrameRegions (f.bytes ++ rest) f.hdr.bytes f.payload (htonl (crc32 f.covered)) rest where
  buf_eq := by simp only [WireFrame.bytes, List.append_assoc]
  length_hb := f.hdr.length_bytes
  length_tr := rfl
  magic_eq := by rw [FrameHeader.read_bytes, f.magic_eq]
  len_eq := by rw [FrameHeader.read_bytes, f.len_eq]
  len_le := f.len_le

/-- **The decoder accepts every frame**, whatever follows it. -/
theorem frameCheck_bytes (f : WireFrame) (rest : List Byte) :
    frameCheck (f.bytes ++ rest) = some (.ok f.hdr) := by
  rw [(f.regions rest).check, ntohl_htonl, FrameHeader.read_bytes]
  exact congrArg some (if_neg (not_not.mpr rfl))

/-- **The decoder accepts frames only.** -/
theorem frameCheck_ok {buf : List Byte} {hdr : FrameHeader} (h : frameCheck buf = some (.ok hdr)) :
    ∃ (f : WireFrame) (rest : List Byte), f.hdr = hdr ∧ buf = f.bytes ++ rest := by
  obtain hfail | ⟨hb, pl, tr, rest, hregions⟩ := frameCheck_cases buf
  · rw [hfail] at h
    cases h
  · rw [hregions.check] at h
    by_cases hcrc : crc32 (hb.drop 4 ++ pl) = ntohl tr
    swap
    · rw [if_pos hcrc] at h
      cases h
    rw [if_neg (not_not.mpr hcrc)] at h
    obtain rfl := Except.ok.inj (Option.some.inj h)
    refine ⟨hregions.frame, rest, rfl, ?_⟩
    rw [hregions.bytes_frame hcrc, List.append_assoc, List.append_assoc]
    exact hregions.buf_eq

/-- **The decoder on a frame**, with room for the payload. -/
theorem frameDecode_bytes (f : WireFrame) (rest : List Byte) {dst : List Byte}
    (hroom : f.payload.length ≤ dst.length) :
    frameDecode (f.bytes ++ rest) (some dst)
      = some ⟨f.payload.length, some (memcpyAt dst 0 f.payload), some f.info⟩ := by
  have hread : readBytes (f.bytes ++ rest) frameHeaderSize f.payload.length = some f.payload := by
    rw [(f.regions rest).buf_eq]
    exact readBytes_append _ f.hdr.length_bytes rfl _
  unfold frameDecode
  rw [frameCheck_bytes]
  simp only [Option.bind_eq_bind, Option.bind_some, f.len_eq, hread]
  rw [if_neg (Nat.not_lt.mpr hroom)]
  rfl

/-- An error of the checks is negative. -/
theorem frameCheck_error {buf : List Byte} {ret : ℤ} (h : frameCheck buf = some (.error ret)) :
    ret < 0 := by
  obtain hfail | ⟨hb, pl, tr, rest, hregions⟩ := frameCheck_cases buf
  · rw [hfail] at h
    obtain rfl := Except.error.inj (Option.some.inj h)
    decide
  · rw [hregions.check] at h
    by_cases hcrc : crc32 (hb.drop 4 ++ pl) = ntohl tr
    · rw [if_neg (not_not.mpr hcrc)] at h
      cases h
    · rw [if_pos hcrc] at h
      obtain rfl := Except.error.inj (Option.some.inj h)
      decide

/-- **The decoder on any buffer**: it has a result, and where that is a length the buffer begins
with a frame. -/
theorem frameDecode_cases (buf : List Byte) (payload : Option (List Byte)) :
    ∃ r, frameDecode buf payload = some r ∧ (r.ret < 0 ∧ r.payload = payload ∧ r.info = none
      ∨ ∃ (f : WireFrame) (rest : List Byte), buf = f.bytes ++ rest ∧
        r = ⟨f.payload.length, payload.map fun dst => memcpyAt dst 0 f.payload, some f.info⟩) := by
  obtain ⟨c, hcheck⟩ : ∃ c, frameCheck buf = some c := by
    obtain hfail | ⟨hb, pl, tr, rest, hregions⟩ := frameCheck_cases buf
    · exact ⟨_, hfail⟩
    · exact ⟨_, hregions.check⟩
  cases c with
  | error ret =>
    refine ⟨⟨ret, payload, none⟩, ?_, Or.inl ⟨frameCheck_error hcheck, rfl, rfl⟩⟩
    rw [frameDecode, hcheck]
    rfl
  | ok hdr =>
    obtain ⟨f, rest, rfl, rfl⟩ := frameCheck_ok hcheck
    cases payload with
    | none =>
      refine ⟨_, ?_, Or.inr ⟨f, rest, rfl, rfl⟩⟩
      rw [frameDecode, hcheck, ← f.len_eq]
      rfl
    | some dst =>
      by_cases hroom : f.payload.length ≤ dst.length
      · exact ⟨_, frameDecode_bytes f rest hroom, Or.inr ⟨f, rest, rfl, rfl⟩⟩
      · refine ⟨⟨errNospc, some dst, none⟩, ?_, Or.inl ⟨show errNospc < 0 by decide, rfl, rfl⟩⟩
        rw [frameDecode, hcheck]
        simp only [Option.bind_eq_bind, Option.bind_some, f.len_eq]
        rw [if_pos (Nat.not_le.mp hroom)]

/-! ### The round trip -/

/-- **Decoding undoes encoding.**  For all arguments that the encoder accepts, the frame, whatever
follows it, decodes to the arguments.  A rejected call writes nothing, and no buffer makes the
decoder read past its end. -/
theorem frame_round_trip :
    (∀ (buf payload : List Byte) (frameType : ℕ) (sequence : BitVec 32) (streamId : BitVec 16),
      payload.length ≤ frameMaxPayload → frameType ≤ frameBbframe →
      payload.length + 20 ≤ buf.length →
      ∃ frame : List Byte, frame.length = payload.length + 20 ∧
        frameEncode buf (some payload) frameType sequence streamId
          = (((payload.length + 20 : ℕ) : ℤ), frame ++ buf.drop (payload.length + 20)) ∧
        ∀ trailing dst : List Byte, payload.length ≤ dst.length →
          frameDecode (frame ++ trailing) (some dst)
            = some ⟨payload.length, some (memcpyAt dst 0 payload),
                some ⟨frameType, sequence, streamId⟩⟩) ∧
    (∀ (buf : List Byte) (payload : Option (List Byte)) (frameType : ℕ) (sequence : BitVec 32)
      (streamId : BitVec 16), (frameEncode buf payload frameType sequence streamId).1 < 0 →
        (frameEncode buf payload frameType sequence streamId).2 = buf) ∧
    (∀ (buf : List Byte) (payload : Option (List Byte)), ∃ r, frameDecode buf payload = some r) := by
  refine ⟨?_, ?_, ?_⟩
  · intro buf payload frameType sequence streamId hlen htype hsize
    let f := WireFrame.ofArgs payload frameType sequence streamId hlen
    have hinfo : f.info = ⟨frameType, sequence, streamId⟩ := by
      have hbyte : (BitVec.ofNat 8 frameType).toNat = frameType := by
        rw [BitVec.toNat_ofNat]
        exact Nat.mod_eq_of_lt (htype.trans_lt (by decide))
      exact congrArg (fun t => FrameMeta.mk t sequence streamId) hbyte
    refine ⟨f.bytes, f.length_bytes, frameEncode_eq sequence streamId hlen htype hsize, ?_⟩
    intro trailing dst hroom
    rw [frameDecode_bytes f trailing hroom, hinfo]
    rfl
  · intro buf payload frameType sequence streamId hret
    exact frameEncode_rejects hret
  · intro buf payload
    obtain ⟨r, hr, -⟩ := frameDecode_cases buf payload
    exact ⟨r, hr⟩

/-- The round trip of a three-byte payload in a buffer of its size. -/
theorem frame_round_trip_three :
    ∃ frame : List Byte, frame.length = 23 ∧
      frameEncode (List.replicate 23 0) (some [1, 2, 3]) 1 7 9 = (23, frame) ∧
      frameDecode frame (some [0, 0, 0]) = some ⟨3, some [1, 2, 3], some ⟨1, 7, 9⟩⟩ := by
  obtain ⟨frame, hlen, henc, hdec⟩ := frame_round_trip.1 (List.replicate 23 0) [1, 2, 3] 1 7 9
    (by decide) (by decide) (by decide)
  have hall := hdec [] [0, 0, 0] (by decide)
  rw [List.append_nil] at hall
  refine ⟨frame, hlen, ?_, hall⟩
  rw [henc, List.drop_eq_nil_of_le (by decide), List.append_nil]
  rfl

/-! ### What the encoder can send -/

/-- What the decoder returned, the encoder accepts, and it sends the same bytes. -/
def Reencodes (buf : List Byte) (r : FrameDecode) : Prop :=
  ∃ out info, r.payload = some out ∧ r.info = some info ∧
    ∀ buf' : List Byte, r.ret.toNat + 20 ≤ buf'.length →
      ∃ out', frameEncode buf' (some (out.take r.ret.toNat)) info.frameType info.sequence
          info.streamId = (r.ret + 20, out') ∧
        out'.take (r.ret.toNat + 20) = buf.take (r.ret.toNat + 20)

/-- The header of a frame is the one that the encoder writes. -/
theorem WireFrame.hdr_eq_ofArgs_iff (f : WireFrame) :
    (WireFrame.ofArgs f.payload f.hdr.frameType.toNat f.hdr.sequence f.hdr.streamId f.len_le).hdr
      = f.hdr ↔ f.hdr.flags = 0 ∧ f.hdr.fragOffset = 0 := by
  constructor
  · intro h
    rw [← h]
    exact ⟨rfl, rfl⟩
  · rintro ⟨hflags, hfrag⟩
    refine FrameHeader.ext f.magic_eq.symm rfl ?_ ?_ hflags.symm hfrag.symm rfl
    · show BitVec.ofNat 16 f.payload.length = f.hdr.payloadLen
      rw [← f.len_eq, BitVec.ofNat_toNat, BitVec.setWidth_eq]
    · show BitVec.ofNat 8 f.hdr.frameType.toNat = f.hdr.frameType
      rw [BitVec.ofNat_toNat, BitVec.setWidth_eq]

/-- The fields of a frame's header, in its bytes. -/
theorem WireFrame.getD_bytes (f : WireFrame) (rest : List Byte) :
    (f.bytes ++ rest).getD 10 0 = f.hdr.frameType ∧ (f.bytes ++ rest).getD 11 0 = f.hdr.flags ∧
      htons f.hdr.fragOffset = [(f.bytes ++ rest).getD 12 0, (f.bytes ++ rest).getD 13 0] :=
  ⟨rfl, rfl, rfl⟩

theorem htons_eq_zero_iff (v : BitVec 16) : htons v = [0, 0] ↔ v = 0 := by
  constructor
  · intro h
    rw [← ntohs_htons v, h]
    rfl
  · rintro rfl
    rfl

/-- What was decoded of a frame, sent again. -/
theorem WireFrame.reencodes_iff (f : WireFrame) (rest dst : List Byte) :
    Reencodes (f.bytes ++ rest)
        ⟨f.payload.length, some (memcpyAt dst 0 f.payload), some f.info⟩
      ↔ f.hdr.frameType.toNat ≤ frameBbframe ∧ f.hdr.flags = 0 ∧ f.hdr.fragOffset = 0 := by
  let g := WireFrame.ofArgs f.payload f.hdr.frameType.toNat f.hdr.sequence f.hdr.streamId f.len_le
  have hout : (memcpyAt dst 0 f.payload).take f.payload.length = f.payload := by
    rw [memcpyAt, List.take_zero, List.nil_append, List.take_left]
  have hsent : (f.bytes ++ rest).take (f.payload.length + 20) = f.bytes :=
    List.take_left' f.length_bytes
  have hsame : g.bytes = f.bytes ↔ f.hdr.flags = 0 ∧ f.hdr.fragOffset = 0 :=
    (WireFrame.bytes_eq_iff g f rfl).trans f.hdr_eq_ofArgs_iff
  have hencode : f.hdr.frameType.toNat ≤ frameBbframe → ∀ buf : List Byte,
      f.payload.length + 20 ≤ buf.length →
      frameEncode buf (some f.payload) f.info.frameType f.info.sequence f.info.streamId
        = (((f.payload.length + 20 : ℕ) : ℤ), g.bytes ++ buf.drop (f.payload.length + 20)) :=
    fun htype buf hsize => frameEncode_eq _ _ f.len_le htype hsize
  have hgtake : ∀ after : List Byte, (g.bytes ++ after).take (f.payload.length + 20) = g.bytes :=
    fun after => List.take_left' g.length_bytes
  constructor
  · rintro ⟨out, info, hpayload, hinfo, hall⟩
    obtain rfl := Option.some.inj hpayload
    obtain rfl := Option.some.inj hinfo
    have hsize : f.payload.length + 20
        ≤ (List.replicate (f.payload.length + 20) (0 : Byte)).length :=
      le_of_eq List.length_replicate.symm
    obtain ⟨out', henc, hbytes⟩ := hall _ hsize
    rw [Int.toNat_natCast] at henc hbytes
    rw [hout] at henc
    have htype : f.info.frameType ≤ frameBbframe :=
      frameEncode_type (by rw [henc]; exact Int.natCast_nonneg (f.payload.length + 20))
    have hwritten : g.bytes ++ (List.replicate (f.payload.length + 20) 0).drop
        (f.payload.length + 20) = out' :=
      (Prod.ext_iff.mp ((hencode htype _ hsize).symm.trans henc)).2
    rw [← hwritten, hgtake, hsent] at hbytes
    exact ⟨htype, hsame.mp hbytes⟩
  · rintro ⟨htype, hzero⟩
    refine ⟨_, _, rfl, rfl, fun buf' hsize => ⟨g.bytes ++ buf'.drop (f.payload.length + 20), ?_, ?_⟩⟩
    · rw [Int.toNat_natCast, hout]
      exact hencode htype buf' hsize
    · rw [Int.toNat_natCast, hgtake, hsent]
      exact hsame.mpr hzero

/-- **The accepted frames that the encoder sends**: those of a known type that are no fragments. -/
theorem frameDecode_reencodes_iff {buf dst : List Byte} {r : FrameDecode}
    (hdec : frameDecode buf (some dst) = some r) (hret : 0 ≤ r.ret) :
    Reencodes buf r ↔ (buf.getD 10 0).toNat ≤ frameBbframe ∧ buf.getD 11 0 = 0 ∧
      buf.getD 12 0 = 0 ∧ buf.getD 13 0 = 0 := by
  obtain ⟨r', hr', hfail | ⟨f, rest, rfl, rfl⟩⟩ := frameDecode_cases buf (some dst)
  · obtain rfl := Option.some.inj (hdec.symm.trans hr')
    exact absurd hret (not_le.mpr hfail.1)
  · obtain rfl := Option.some.inj (hdec.symm.trans hr')
    obtain ⟨htype, hflags, hfrag⟩ := f.getD_bytes rest
    have hzero : f.hdr.fragOffset = 0
        ↔ (f.bytes ++ rest).getD 12 0 = 0 ∧ (f.bytes ++ rest).getD 13 0 = 0 := by
      rw [← htons_eq_zero_iff, hfrag, List.cons.injEq, List.cons.injEq]
      exact and_congr_right fun _ => and_iff_left rfl
    rw [htype, hflags, ← hzero]
    exact f.reencodes_iff rest dst

/-- A frame of transport stream packets is sent as it was received. -/
theorem frameDecode_reencodes_two :
    Reencodes
      [0x53, 0x32, 0x58, 0x56, 0, 0, 0, 1, 0, 2, 1, 0, 0, 0, 0, 5, 0xab, 0xcd, 0x5c, 0x84, 0x97, 0xdb]
      ⟨2, some [0xab, 0xcd], some ⟨1, 1, 5⟩⟩ :=
  (frameDecode_reencodes_iff (show frameDecode _ (some [0, 0]) = _ by decide +kernel)
    (by decide)).mpr (by decide)

/-- A frame of type 7, with the right CRC. -/
def frameOfType7 : List Byte :=
  [0x53, 0x32, 0x58, 0x56, 0, 0, 0, 1, 0, 2, 7, 0, 0, 0, 0, 5, 0xab, 0xcd, 0x9a, 0xeb, 0x9e, 0x5c]

theorem frameDecode_frameOfType7 :
    frameDecode frameOfType7 (some [0, 0]) = some ⟨2, some [0xab, 0xcd], some ⟨7, 1, 5⟩⟩ := by
  decide +kernel

/-- The decoder accepts a frame that the encoder refuses to send. -/
theorem frameDecode_unknown_type :
    ¬ ∀ (buf dst : List Byte) (r : FrameDecode), frameDecode buf (some dst) = some r →
      0 ≤ r.ret → Reencodes buf r := by
  intro hall
  obtain ⟨out, info, -, hinfo, henc⟩ := hall _ _ _ frameDecode_frameOfType7 (by decide)
  obtain rfl := Option.some.inj hinfo
  obtain ⟨out', hout, -⟩ := henc (List.replicate 22 0) (by decide)
  have htype : 7 ≤ frameBbframe :=
    frameEncode_type (by rw [hout]; exact (by decide : (0 : ℤ) ≤ 22))
  exact absurd htype (by decide)

end OpenVlsnr
