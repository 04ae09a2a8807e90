import OpenVlsnr.Types

/-!
# Baseband frames and MPEG-TS mode adaptation (`bb_frame.c`)

A BBFRAME is an 80-bit header followed by the data field, the whole of it XORed with a PRBS.
Bits are stored one per `uint8_t`; here a buffer of bits is a `List Bool`.  The transmitter
slices a bit stream of TS packets into data fields, the receiver glues it back together.

* `bbCrc8`, `bbScramble`, `bbHeaderWrite`, `bbHeaderRead` - the parts of a frame;
* `tsTxPush` - one packet in, at most one frame out (`TsTxPush` carries the loop variables);
* `tsRxPush` - one frame in, the packets verified by it out (`TsRxLoop` carries the locals
  that are only committed when the whole frame has been accepted);
* `tsRxFinalizeUnchecked` - hand out the packet still held for its CRC;
* `bbFrameBuild`, `bbFrameParseEx` - a generic-stream frame from its user bits, and back.

Buffers are passed in and returned, so that what a failing call leaves behind is visible.
-/

namespace OpenVlsnr

abbrev bbHeaderBits : ℕ := 80
abbrev tsPacketSize : ℕ := 188
def tsPacketBits : ℕ := 1504

theorem tsPacketSize_pos : 0 < tsPacketSize := by decide

/-- `TS_MAX_PACKETS_PER_FRAME`. -/
abbrev tsMaxPacketsPerFrame : ℕ := ldpcNormal / tsPacketBits + 1

def bbPrbsInit : BitVec 16 := 0x4A80
def bbCrc8Poly : Byte := 0xD5

inductive StreamType where
  | ts
  | gs
  deriving DecidableEq, Repr

/-- `struct dvbs2x_bb_frame_ctx`. -/
structure BbFrameCtx where
  kBch : ℕ
  streamType : StreamType
  upl : ℕ
  dfl : ℕ
  ro : Byte
  deriving DecidableEq, Repr

/-- `dvbs2x_bb_frame_init`; `dfl` is a `uint16_t`. -/
def bbFrameInit (modcod : Modcod) (streamType : StreamType) : BbFrameCtx where
  kBch := modcod.kBch
  streamType := streamType
  ro := 0
  upl := 0
  dfl := (modcod.kBch - bbHeaderBits) % 2 ^ 16

/-! ### CRC-8 -/

/-- One shift of the CRC register. -/
def crc8Shift (crc : Byte) : Byte :=
  if crc &&& 0x80 ≠ 0 then (crc <<< 1) ^^^ bbCrc8Poly else crc <<< 1

/-- The body of the outer loop of `dvbs2x_bb_crc8`: one data byte, eight shifts. -/
def crc8Byte (crc d : Byte) : Byte := crc8Shift^[8] (crc ^^^ d)

def bbCrc8 (data : List Byte) : Byte := data.foldl crc8Byte 0

/-! ### PRBS scrambling -/

def prbsBit (sr : BitVec 16) : Bool := (sr ^^^ (sr >>> 1)).getLsbD 0

def prbsNext (sr : BitVec 16) : BitVec 16 :=
  if prbsBit sr then (sr >>> 1) ||| 0x4000 else sr >>> 1

/-- The scrambling loop from register value `sr`. -/
def bbScrambleFrom : BitVec 16 → List Bool → List Bool
  | _, [] => []
  | sr, x :: xs => (x ^^ prbsBit sr) :: bbScrambleFrom (prbsNext sr) xs

/-- `bb_scramble`: the first `len` entries of the buffer, in place. -/
def bbScramble (frame : List Bool) (len : ℕ) : List Bool :=
  bbScrambleFrom bbPrbsInit (frame.take len) ++ frame.drop len

/-! ### Buffers and bits -/

/-- `memcpy(dst + off, src, ...)`. -/
def memcpyAt {α : Type*} (dst : List α) (off : ℕ) (src : List α) : List α :=
  dst.take off ++ src ++ dst.drop (off + src.length)

/-- The bits of a byte, most significant first: `(v >> (7 - b)) & 1`. -/
def byteBits (v : Byte) : List Bool := (List.range 8).map fun b => v.getLsbD (7 - b)

/-- `v |= x << (7 - bit)`. -/
def orBit (v : Byte) (bit : ℕ) (x : Bool) : Byte :=
  v ||| ((BitVec.ofBool x).setWidth 8 <<< (7 - bit))

/-- Eight bits of a buffer from `off` on, reassembled into a byte. -/
def bitsByte (bits : List Bool) (off : ℕ) : Byte :=
  (List.range 8).foldl (fun v b => orBit v b (bits.getD (off + b) false)) 0

/-! ### The frame header -/

/-- `struct dvbs2x_bb_header`. -/
structure BbHeader where
  matype1 : Byte
  matype2 : Byte
  upl : ℕ
  dfl : ℕ
  sync : Byte
  syncd : ℕ
  crc8 : Byte
  deriving DecidableEq, Repr

/-- The ten header bytes of `bb_header_write`, the CRC of the first nine last. -/
def bbHeaderBytes (ctx : BbFrameCtx) (dfl upl : ℕ) (sync : Byte) (syncd : ℕ) (matype1 : Byte) :
    List Byte :=
  let header : List Byte :=
    [matype1 ||| (ctx.ro &&& 0x03), 0,
     BitVec.ofNat 8 (upl >>> 8), BitVec.ofNat 8 upl,
     BitVec.ofNat 8 (dfl >>> 8), BitVec.ofNat 8 dfl,
     sync,
     BitVec.ofNat 8 (syncd >>> 8), BitVec.ofNat 8 syncd]
  header ++ [bbCrc8 header]

/-- `bb_header_write`. -/
def bbHeaderWrite (ctx : BbFrameCtx) (dfl upl : ℕ) (sync : Byte) (syncd : ℕ) (matype1 : Byte)
    (bbframe : List Bool) : List Bool :=
  memcpyAt bbframe 0 ((bbHeaderBytes ctx dfl upl sync syncd matype1).flatMap byteBits)

/-- `bb_header_read`: the descrambled frame and its header, or the error code. -/
def bbHeaderRead (ctx : BbFrameCtx) (bbframe : List Bool) : Except ℤ (List Bool × BbHeader) :=
  if ctx.kBch > ldpcNormal then .error errParam
  else
    let descrambled := bbScramble (bbframe.take ctx.kBch) ctx.kBch
    let bytes := fun i => bitsByte descrambled (i * 8)
    if bbCrc8 ((List.range 9).map bytes) ≠ bytes 9 then .error errCrc
    else .ok (descrambled,
      { matype1 := bytes 0
        matype2 := bytes 1
        upl := (bytes 2).toNat * 256 + (bytes 3).toNat
        dfl := (bytes 4).toNat * 256 + (bytes 5).toNat
        sync := bytes 6
        syncd := (bytes 7).toNat * 256 + (bytes 8).toNat
        crc8 := bytes 9 })

/-! ### The transmitter -/

/-- The 188 bytes of a transport packet. -/
abbrev PacketBuf := Vector Byte tsPacketSize

/-- `dvbs2x_bb_crc8(packet + 1, DVBS2X_TS_PACKET_SIZE - 1)`. -/
def packetCrc (packet : PacketBuf) : Byte := bbCrc8 (packet.toList.drop 1)

/-- `struct dvbs2x_ts_tx`; `dataBits` holds the first `data_len` entries of `data_bits`. -/
structure TsTx where
  bb : BbFrameCtx
  dataBits : List Bool
  syncd : ℕ
  previousCrc : Byte
  deriving DecidableEq, Repr

def TsTx.dataLen (tx : TsTx) : ℕ := tx.dataBits.length

/-- `dvbs2x_ts_tx_init`. -/
def tsTxInit (modcod : Modcod) (ro : Byte) : Except ℤ TsTx :=
  if 2 < ro.toNat then .error errParam
  else .ok
    { bb := { bbFrameInit modcod .ts with upl := tsPacketBits, ro := ro }
      dataBits := []
      syncd := 0
      previousCrc := 0 }

/-- The frame `dvbs2x_ts_tx_push` assembles in `bbframe` from a full data field. -/
def tsTxFrame (bb : BbFrameCtx) (syncd : ℕ) (dataBits bbframe : List Bool) : List Bool :=
  let bbframe := bbHeaderWrite bb bb.dfl tsPacketBits 0x47 syncd 0xf0 bbframe
  bbScramble (memcpyAt bbframe bbHeaderBits dataBits) bb.kBch

/-- What `dvbs2x_ts_tx_push` changes: the context, the frame buffer and `*frame_len`. -/
structure TsTxPush where
  tx : TsTx
  bbframe : List Bool
  frameLen : ℕ

/-- Iteration `i` of the loop over the packet's bits. -/
def tsTxPushBit (packet : PacketBuf) (s : TsTxPush) (i : ℕ) : TsTxPush :=
  let byte := if i < 8 then s.tx.previousCrc else packet.toList.getD (i / 8) 0
  let dataBits := s.tx.dataBits ++ [byte.getLsbD (7 - i % 8)]
  if dataBits.length ≠ s.tx.bb.dfl then { s with tx := { s.tx with dataBits := dataBits } }
  else
    { tx := { s.tx with
        dataBits := []
        syncd := if i + 1 = tsPacketBits then 0 else tsPacketBits - i - 1 }
      bbframe := tsTxFrame s.tx.bb s.tx.syncd dataBits s.bbframe
      frameLen := s.tx.bb.kBch }

/-- The whole loop. -/
def tsTxPushBits (packet : PacketBuf) (s : TsTxPush) : TsTxPush :=
  (List.range tsPacketBits).foldl (tsTxPushBit packet) s

/-- `dvbs2x_ts_tx_push`. -/
def tsTxPush (tx : TsTx) (packet : PacketBuf) (bbframe : List Bool) (frameCapacity : ℕ) :
    ℤ × TsTxPush :=
  if packet[0] ≠ 0x47 then (errParam, ⟨tx, bbframe, 0⟩)
  else if frameCapacity < tx.bb.kBch then (errShort, ⟨tx, bbframe, tx.bb.kBch⟩)
  else
    let s := tsTxPushBits packet ⟨tx, bbframe, 0⟩
    (ok, { s with tx := { s.tx with previousCrc := packetCrc packet } })

/-! ### The receiver -/

/-- `struct dvbs2x_ts_rx`. -/
structure TsRx where
  bb : BbFrameCtx
  packet : PacketBuf
  previous : PacketBuf
  packetBits : ℕ
  havePrevious : Bool
  deriving DecidableEq

/-- `dvbs2x_ts_rx_init`. -/
def tsRxInit (modcod : Modcod) : TsRx where
  bb := { bbFrameInit modcod .ts with upl := tsPacketBits }
  packet := Vector.replicate tsPacketSize 0
  previous := Vector.replicate tsPacketSize 0
  packetBits := 0
  havePrevious := false

/-- `dvbs2x_ts_rx_reset`. -/
def tsRxReset (rx : TsRx) : TsRx := { rx with packetBits := 0, havePrevious := false }

/-- The local variables of `dvbs2x_ts_rx_push`; `output` holds the `produced` packets. -/
structure TsRxLoop where
  packet : PacketBuf
  previous : PacketBuf
  packetBits : ℕ
  havePrevious : Bool
  output : List PacketBuf

/-- The end of a packet: check the CRC of the one before it against the marker byte, hand
that one out and hold this one. -/
def tsRxPacketEnd (s : TsRxLoop) : Except ℤ TsRxLoop :=
  let marker := s.packet[0]
  let packet := s.packet.set 0 0x47
  if s.havePrevious ∧ packetCrc s.previous ≠ marker then .error errCrc
  else .ok
    { packet := packet
      previous := packet
      packetBits := 0
      havePrevious := true
      output := if s.havePrevious then s.output ++ [s.previous] else s.output }

/-- Store one bit of a packet; a byte is cleared when its first bit arrives. -/
def tsRxStoreBit (packet : PacketBuf) (packetBits : ℕ) (x : Bool) : PacketBuf :=
  let byte := packetBits / 8
  let bit := packetBits % 8
  let packet := if bit = 0 then packet.setIfInBounds byte 0 else packet
  packet.setIfInBounds byte (orBit (packet.toList.getD byte 0) bit x)

/-- One iteration of the loop over the data-field bits. -/
def tsRxPushBit (s : TsRxLoop) (x : Bool) : Except ℤ TsRxLoop :=
  let s := { s with
    packet := tsRxStoreBit s.packet s.packetBits x
    packetBits := s.packetBits + 1 }
  if s.packetBits ≠ tsPacketBits then .ok s else tsRxPacketEnd s

/-- What `dvbs2x_ts_rx_push` returns and changes. -/
structure TsRxPush where
  ret : ℤ
  rx : TsRx
  packets : List PacketBuf
  packetCount : ℕ

/-- The acceptance test on a header, and the first data-field bit to consume. -/
def tsRxStart (rx : TsRx) (header : BbHeader) : Except ℤ ℕ :=
  if header.matype1 &&& 0xc0 ≠ 0xc0 ∨ header.matype2 ≠ 0 ∨ header.upl ≠ tsPacketBits ∨
      header.sync ≠ 0x47 ∨ header.dfl > rx.bb.dfl then .error errParam
  else if rx.packetBits = 0 ∧ rx.havePrevious = false then
    if header.syncd > header.dfl then .error errNosync else .ok header.syncd
  else if header.syncd ≠ (if rx.packetBits ≠ 0 then tsPacketBits - rx.packetBits else 0) then
    .error errNosync
  else .ok 0

/-- The number of packets a frame will emit, as predicted before parsing it. -/
def tsRxNeeded (rx : TsRx) (dfl start : ℕ) : ℕ :=
  let complete := (rx.packetBits + dfl - start) / tsPacketBits
  if rx.havePrevious = false ∧ complete ≠ 0 then complete - 1 else complete

/-- `dvbs2x_ts_rx_push`. -/
def tsRxPush (rx : TsRx) (bbframe : List Bool) (packets : List PacketBuf)
    (packetCapacity : ℕ) : TsRxPush :=
  match bbHeaderRead rx.bb bbframe with
  | .error e => ⟨e, rx, packets, 0⟩
  | .ok (descrambled, header) =>
    match tsRxStart rx header with
    | .error e => ⟨e, rx, packets, 0⟩
    | .ok start =>
      if packetCapacity < tsRxNeeded rx header.dfl start then
        ⟨errShort, rx, packets, tsRxNeeded rx header.dfl start⟩
      else
        let bits := (descrambled.drop (bbHeaderBits + start)).take (header.dfl - start)
        match bits.foldlM tsRxPushBit
            ⟨rx.packet, rx.previous, rx.packetBits, rx.havePrevious, []⟩ with
        | .error e => ⟨e, rx, packets, 0⟩
        | .ok s =>
          ⟨ok,
            { rx with
              packet := s.packet
              previous := s.previous
              packetBits := s.packetBits
              havePrevious := s.havePrevious },
            memcpyAt packets 0 s.output, s.output.length⟩

/-- `dvbs2x_ts_rx_finalize_unchecked`. -/
def tsRxFinalizeUnchecked (rx : TsRx) (packet : List PacketBuf) (packetCapacity : ℕ) :
    TsRxPush :=
  if rx.havePrevious ∧ packetCapacity = 0 then ⟨errShort, rx, packet, 1⟩
  else if rx.havePrevious then ⟨ok, tsRxReset rx, memcpyAt packet 0 [rx.previous], 1⟩
  else ⟨ok, tsRxReset rx, packet, 0⟩

/-! ### Generic streams -/

/-- The ten header bytes of `dvbs2x_bb_frame_build`. -/
def bbBuildHeader (ctx : BbFrameCtx) (dfl : ℕ) : List Byte :=
  let matype1 : Byte := 0x70
  let matype1 := matype1 ||| (ctx.ro &&& 0x03)
  let header : List Byte :=
    [matype1, 0,
     BitVec.ofNat 8 (ctx.upl >>> 8), BitVec.ofNat 8 ctx.upl,
     BitVec.ofNat 8 (dfl >>> 8), BitVec.ofNat 8 dfl,
     0, 0, 0]
  header ++ [bbCrc8 header]

/-- `dvbs2x_bb_frame_build`: header, user bits, zeros up to `ctx->dfl`, all of it scrambled. -/
def bbFrameBuild (ctx : BbFrameCtx) (userData : List Bool) (userLen : ℕ)
    (bbframe : List Bool) : ℤ × List Bool :=
  if ctx.streamType ≠ .gs ∨ userLen > ctx.dfl then (errParam, bbframe)
  else
    let dfl := userLen
    let bbframe := memcpyAt bbframe 0 ((bbBuildHeader ctx dfl).flatMap byteBits)
    let bbframe := memcpyAt bbframe bbHeaderBits (userData.take userLen)
    let bbframe := memcpyAt bbframe (bbHeaderBits + userLen)
      (List.replicate (ctx.dfl - userLen) false)
    (ok, bbScramble bbframe ctx.kBch)

/-- What `dvbs2x_bb_frame_parse_ex` returns and writes. -/
structure BbParse where
  ret : ℤ
  userData : List Bool
  userLen : ℕ

/-- `dvbs2x_bb_frame_parse_ex`; a wrong header CRC is a plain `-1` there. -/
def bbFrameParseEx (ctx : BbFrameCtx) (bbframe userData : List Bool) (userCapacity : ℕ) :
    BbParse :=
  if ctx.kBch > ldpcNormal then ⟨errParam, userData, 0⟩
  else
    let descrambled := bbScramble (bbframe.take ctx.kBch) ctx.kBch
    let bytes := fun i => bitsByte descrambled (i * 8)
    if bbCrc8 ((List.range 9).map bytes) ≠ bytes 9 then ⟨-1, userData, 0⟩
    else if bytes 0 &&& 0xc0 ≠ 0x40 ∨ bytes 2 ≠ 0 ∨ bytes 3 ≠ 0 then ⟨errParam, userData, 0⟩
    else
      let dfl := (bytes 4).toNat * 256 + (bytes 5).toNat
      let dfl := if dfl > ctx.kBch - bbHeaderBits then (ctx.kBch - bbHeaderBits) % 2 ^ 16 else dfl
      if userCapacity < dfl then ⟨errShort, userData, dfl⟩
      else ⟨ok, memcpyAt userData 0 ((descrambled.drop bbHeaderBits).take dfl), dfl⟩

end OpenVlsnr
