import OpenVlsnr.TsAtomic

/-!
# The receiver on arbitrary frames (`bb_frame.c`)

What `dvbs2x_ts_rx_push` does when the frames are not those of a transmitter.  The data field
length and the offset come from a received header that is only partly checked, so the array
accesses of a call are listed as the source makes them (`tsRxPushAccesses`), and the data-field
bits that a receiver has taken in since it last synchronised are kept beside it (`TsRxTrace`).

* `tsRxLoop_inRange` - the loop stays inside its four arrays: the bits it holds, those still to
  come and those it has handed out are at most one frame and one packet;
* `TsRxTraced.push` - after any frame the receiver is one over the bits it has taken in
  (`RxOver`), so what it hands out are chunks of that stream that passed their checks;
* `tsRx_safe` - both, over any sequence of calls.
-/

namespace OpenVlsnr

/-! ### Array accesses -/

/-- The arrays of `dvbs2x_ts_rx_push`: two in the context and four locals. -/
inductive TsRxArray where
  | rxPacket
  | rxPrevious
  | descrambled
  | output
  | packet
  | previous
  deriving DecidableEq

def TsRxArray.size : TsRxArray → ℕ
  | .descrambled => ldpcNormal
  | .output => tsMaxPacketsPerFrame * tsPacketSize
  | _ => tsPacketSize

/-- An access to `len` consecutive elements. -/
structure TsRxAccess where
  array : TsRxArray
  off : ℕ
  len : ℕ
  deriving DecidableEq

def TsRxAccess.InRange (a : TsRxAccess) : Prop := a.off + a.len ≤ a.array.size

/-- The end of a packet: the marker, the CRC of the packet before it, and the copies. -/
def tsRxPacketEndAccesses (s : TsRxLoop) : List TsRxAccess :=
  let hold : List TsRxAccess := [⟨.previous, 0, tsPacketSize⟩, ⟨.packet, 0, tsPacketSize⟩]
  ⟨.packet, 0, 1⟩ ::
    if s.havePrevious then
      ⟨.previous, 1, tsPacketSize - 1⟩ ::
        if packetCrc s.previous ≠ getElem s.packet 0 tsPacketSize_pos then []
        else ⟨.output, s.output.length * tsPacketSize, tsPacketSize⟩ ::
          ⟨.previous, 0, tsPacketSize⟩ :: hold
    else hold

/-- One iteration of the loop over the data-field bits. -/
def tsRxPushBitAccesses (s : TsRxLoop) (i : ℕ) (x : Bool) : List TsRxAccess :=
  ⟨.packet, s.packetBits / 8, 1⟩ :: ⟨.descrambled, bbHeaderBits + i, 1⟩ ::
    if s.packetBits + 1 ≠ tsPacketBits then []
    else tsRxPacketEndAccesses { s with packet := tsRxStoreBit s.packet s.packetBits x }

/-- The loop from iteration `i` on, up to the packet that fails its check. -/
def tsRxLoopAccesses (i : ℕ) (s : TsRxLoop) : List Bool → List TsRxAccess
  | [] => []
  | x :: bits => tsRxPushBitAccesses s i x ++
      match tsRxPushBit s x with
      | .error _ => []
      | .ok s' => tsRxLoopAccesses (i + 1) s' bits

/-- `bb_header_read`: the copy, the descrambling and the ten header bytes. -/
def bbHeaderReadAccesses (ctx : BbFrameCtx) : List TsRxAccess :=
  if ctx.kBch > ldpcNormal then []
  else [⟨.descrambled, 0, ctx.kBch⟩, ⟨.descrambled, 0, ctx.kBch⟩, ⟨.descrambled, 0, bbHeaderBits⟩]

/-- The two packet buffers of the context and their local copies. -/
def tsRxCopyAccesses : List TsRxAccess :=
  [⟨.packet, 0, tsPacketSize⟩, ⟨.rxPacket, 0, tsPacketSize⟩,
    ⟨.previous, 0, tsPacketSize⟩, ⟨.rxPrevious, 0, tsPacketSize⟩]

/-- `dvbs2x_ts_rx_push`. -/
def tsRxPushAccesses (rx : TsRx) (bbframe : List Bool) (packetCapacity : ℕ) : List TsRxAccess :=
  bbHeaderReadAccesses rx.bb ++
    match bbHeaderRead rx.bb bbframe with
    | .error _ => []
    | .ok (descrambled, header) =>
      match tsRxStart rx header with
      | .error _ => []
      | .ok start =>
        if packetCapacity < tsRxNeeded rx header.dfl start then []
        else
          let bits := (descrambled.drop (bbHeaderBits + start)).take (header.dfl - start)
          let s : TsRxLoop := ⟨rx.packet, rx.previous, rx.packetBits, rx.havePrevious, []⟩
          tsRxCopyAccesses ++ tsRxLoopAccesses start s bits ++
            match bits.foldlM tsRxPushBit s with
            | .error _ => []
            | .ok s' => tsRxCopyAccesses ++ [⟨.output, 0, s'.output.length * tsPacketSize⟩]

/-- The accesses of any call. -/
def tsRxOpAccesses (rx : TsRx) : TsRxOp → List TsRxAccess
  | .push bbframe _ packetCapacity => tsRxPushAccesses rx bbframe packetCapacity
  | .reset => []
  | .finalize _ packetCapacity =>
    if rx.havePrevious ∧ packetCapacity = 0 then []
    else if rx.havePrevious then [⟨.rxPrevious, 0, tsPacketSize⟩] else []

/-! ### The loop -/

/-- What the loop has room for before iteration `i`, with `rest` bits to come. -/
structure TsRxRoom (i rest : ℕ) (s : TsRxLoop) : Prop where
  bits_lt : s.packetBits < tsPacketBits
  field : bbHeaderBits + i + rest ≤ ldpcNormal
  packets : s.packetBits + rest + tsPacketBits * s.output.length < tsPacketBits + ldpcNormal

theorem TsRxRoom.step {i rest : ℕ} {s s' : TsRxLoop} {x : Bool} (h : TsRxRoom i (rest + 1) s)
    (hstep : tsRxPushBit s x = .ok s') : TsRxRoom (i + 1) rest s' := by
  obtain ⟨hlt, hfield, hpackets⟩ := h
  have hnext : bbHeaderBits + (i + 1) + rest ≤ ldpcNormal := by omega
  obtain ⟨hend, hpb, -, hout⟩ | ⟨hend, hpb, -, hout⟩ := tsRxPushBit_ok hstep
  · refine ⟨by omega, hnext, ?_⟩
    rw [hpb, hout]
    omega
  · refine ⟨by rw [hpb]; decide, hnext, ?_⟩
    have hone : s.havePrevious.toNat ≤ 1 := Bool.toNat_le s.havePrevious
    have hmul : tsPacketBits * s'.output.length
        ≤ tsPacketBits * s.output.length + tsPacketBits := by
      rw [hout, ← Nat.mul_succ]
      exact Nat.mul_le_mul_left _ (by omega)
    rw [hpb]
    omega

/-- **One iteration** stays inside the arrays: the packet that ends in it is the last one that
`output` has to have room for. -/
theorem tsRxPushBit_inRange {i rest : ℕ} {s : TsRxLoop} (x : Bool) (h : TsRxRoom i (rest + 1) s) :
    ∀ a ∈ tsRxPushBitAccesses s i x, a.InRange := by
  obtain ⟨hlt, hfield, hpackets⟩ := h
  have hbyte : s.packetBits / 8 + 1 ≤ tsPacketSize := by
    simp only [tsPacketBits, tsPacketSize] at hlt ⊢
    omega
  unfold tsRxPushBitAccesses
  simp only [List.forall_mem_cons]
  refine ⟨hbyte, show bbHeaderBits + i + 1 ≤ ldpcNormal by omega, ?_⟩
  split
  · exact fun a ha => absurd ha List.not_mem_nil
  · rename_i hend
    have hproduced : s.output.length * tsPacketSize + tsPacketSize
        ≤ tsMaxPacketsPerFrame * tsPacketSize := by
      rw [← Nat.succ_mul]
      refine Nat.mul_le_mul_right _ ?_
      simp only [tsMaxPacketsPerFrame, tsPacketBits, ldpcNormal] at hend hpackets ⊢
      omega
    have hall : 0 + tsPacketSize ≤ tsPacketSize := by decide
    have hrest : 1 + (tsPacketSize - 1) ≤ tsPacketSize := by decide
    have hfirst : 0 + 1 ≤ tsPacketSize := by decide
    unfold tsRxPacketEndAccesses
    dsimp only
    intro a ha
    split_ifs at ha <;>
      simp only [List.mem_cons, List.not_mem_nil, or_false] at ha <;>
      rcases ha with rfl | rfl | rfl | rfl | rfl | rfl <;> assumption

/-- **The loop stays inside its arrays**, by induction on the bits. -/
theorem tsRxLoop_inRange (bits : List Bool) (i : ℕ) (s : TsRxLoop)
    (h : TsRxRoom i bits.length s) : ∀ a ∈ tsRxLoopAccesses i s bits, a.InRange := by
  induction bits generalizing i s with
  | nil => exact fun a ha => absurd ha List.not_mem_nil
  | cons x bits ih =>
    intro a ha
    rw [tsRxLoopAccesses] at ha
    obtain hbit | hrest := List.mem_append.mp ha
    · exact tsRxPushBit_inRange x h a hbit
    · cases hstep : tsRxPushBit s x with
      | error e =>
        rw [hstep] at hrest
        exact absurd hrest List.not_mem_nil
      | ok s' =>
        rw [hstep] at hrest
        exact ih (i + 1) s' (h.step hstep) a hrest

/-! ### A call -/

section Call
variable {bb : BbFrameCtx} {rx : TsRx}

/-- Room for the data field of any accepted frame. -/
theorem TsRxRoom.start (hbb : bb.Valid) (h : TsRxInv bb rx) {header : BbHeader} {start : ℕ}
    (hstart : tsRxStart rx header = .ok start) {bits : List Bool}
    (hbits : bits.length ≤ header.dfl - start) :
    TsRxRoom start bits.length
      ⟨rx.packet, rx.previous, rx.packetBits, rx.havePrevious, []⟩ := by
  obtain ⟨hle, hdfl⟩ := tsRxStart_ok hstart
  rw [h.bb_eq] at hdfl
  have hk := hbb.kBch_eq
  have hn := hbb.kBch_le
  have hlt := h.bits_lt
  refine ⟨hlt, by omega, ?_⟩
  rw [List.length_nil, Nat.mul_zero]
  dsimp only
  omega

/-- What a frame hands out fits in `output` and in the capacity that was asked for. -/
theorem tsRxPushBits_length (hbb : bb.Valid) (h : TsRxInv bb rx) {header : BbHeader} {start : ℕ}
    (hstart : tsRxStart rx header = .ok start) {bits : List Bool}
    (hbits : bits.length ≤ header.dfl - start) {s : TsRxLoop}
    (hloop : bits.foldlM tsRxPushBit
      ⟨rx.packet, rx.previous, rx.packetBits, rx.havePrevious, []⟩ = .ok s) :
    s.output.length ≤ tsRxNeeded rx header.dfl start ∧
      s.output.length ≤ tsMaxPacketsPerFrame := by
  obtain ⟨hle, hdfl⟩ := tsRxStart_ok hstart
  obtain ⟨-, hlen⟩ := tsRxPushBits_count _ _ _ h.bits_lt hloop
  have hends : (rx.packetBits + bits.length) / tsPacketBits
      ≤ (rx.packetBits + header.dfl - start) / tsPacketBits :=
    Nat.div_le_div_right (by omega)
  have hemitted : ∀ ends, emitted rx.havePrevious ends ≤ ends := fun ends => by
    unfold emitted
    split
    · exact le_rfl
    · exact Nat.sub_le ends 1
  have hmono : emitted rx.havePrevious ((rx.packetBits + bits.length) / tsPacketBits)
      ≤ emitted rx.havePrevious ((rx.packetBits + header.dfl - start) / tsPacketBits) := by
    unfold emitted
    split
    · exact hends
    · exact Nat.sub_le_sub_right hends 1
  rw [List.length_nil, Nat.zero_add] at hlen
  rw [hlen, tsRxNeeded_eq]
  refine ⟨hmono, (hemitted _).trans (hends.trans ?_)⟩
  rw [h.bb_eq] at hdfl
  have hk := hbb.kBch_eq
  have hn := hbb.kBch_le
  have hlt := h.bits_lt
  simp only [tsMaxPacketsPerFrame, tsPacketBits, ldpcNormal, bbHeaderBits] at *
  omega

theorem tsRxCopy_inRange : ∀ a ∈ tsRxCopyAccesses, a.InRange := by
  intro a ha
  have hall : 0 + tsPacketSize ≤ tsPacketSize := by decide
  simp only [tsRxCopyAccesses, List.mem_cons, List.not_mem_nil, or_false] at ha
  rcases ha with rfl | rfl | rfl | rfl <;> exact hall

theorem bbHeaderRead_inRange (hbb : bb.Valid) (h : TsRxInv bb rx) :
    ∀ a ∈ bbHeaderReadAccesses rx.bb, a.InRange := by
  intro a ha
  have hall : 0 + rx.bb.kBch ≤ ldpcNormal := by
    rw [h.bb_eq, Nat.zero_add]
    exact hbb.kBch_le
  have hbits : 0 + bbHeaderBits ≤ ldpcNormal := by decide
  unfold bbHeaderReadAccesses at ha
  split_ifs at ha
  · exact absurd ha List.not_mem_nil
  · simp only [List.mem_cons, List.not_mem_nil, or_false] at ha
    rcases ha with rfl | rfl | rfl <;> assumption

/-- **Every access of a push is in range**, whatever the frame. -/
theorem tsRxPush_inRange (hbb : bb.Valid) (h : TsRxInv bb rx) (bbframe : List Bool)
    (packetCapacity : ℕ) : ∀ a ∈ tsRxPushAccesses rx bbframe packetCapacity, a.InRange := by
  intro a ha
  obtain ha | ha := List.mem_append.mp ha
  · exact bbHeaderRead_inRange hbb h a ha
  · cases hread : bbHeaderRead rx.bb bbframe with
    | error e =>
      rw [hread] at ha
      exact absurd ha List.not_mem_nil
    | ok r =>
      obtain ⟨descrambled, header⟩ := r
      rw [hread] at ha
      dsimp only at ha
      cases hstart : tsRxStart rx header with
      | error e =>
        rw [hstart] at ha
        exact absurd ha List.not_mem_nil
      | ok start =>
        rw [hstart] at ha
        dsimp only at ha
        have hbits : ((descrambled.drop (bbHeaderBits + start)).take (header.dfl - start)).length
            ≤ header.dfl - start := List.length_take_le _ _
        generalize (descrambled.drop (bbHeaderBits + start)).take (header.dfl - start) = bits
          at ha hbits
        split_ifs at ha
        · exact absurd ha List.not_mem_nil
        · obtain ha | ha := List.mem_append.mp ha
          · obtain ha | ha := List.mem_append.mp ha
            · exact tsRxCopy_inRange a ha
            · exact tsRxLoop_inRange bits start _ (.start hbb h hstart hbits) a ha
          · cases hloop : bits.foldlM tsRxPushBit
                ⟨rx.packet, rx.previous, rx.packetBits, rx.havePrevious, []⟩ with
            | error e =>
              rw [hloop] at ha
              exact absurd ha List.not_mem_nil
            | ok s =>
              rw [hloop] at ha
              obtain ha | ha := List.mem_append.mp ha
              · exact tsRxCopy_inRange a ha
              · obtain rfl := List.mem_singleton.mp ha
                obtain ⟨-, hmax⟩ := tsRxPushBits_length hbb h hstart hbits hloop
                exact (Nat.zero_add _).le.trans (Nat.mul_le_mul_right _ hmax)

theorem tsRxOp_inRange (hbb : bb.Valid) (h : TsRxInv bb rx) (op : TsRxOp) :
    ∀ a ∈ tsRxOpAccesses rx op, a.InRange := by
  cases op with
  | push bbframe packets packetCapacity => exact tsRxPush_inRange hbb h bbframe packetCapacity
  | reset => exact fun a ha => absurd ha List.not_mem_nil
  | finalize packet packetCapacity =>
    intro a ha
    simp only [tsRxOpAccesses] at ha
    split_ifs at ha
    · exact absurd ha List.not_mem_nil
    · obtain rfl := List.mem_singleton.mp ha
      exact show 0 + tsPacketSize ≤ tsPacketSize by decide
    · exact absurd ha List.not_mem_nil

end Call

/-! ### The bit stream of a receiver -/

/-- The data-field bits that an accepted frame contributes. -/
def tsRxTaken (rx : TsRx) (bbframe : List Bool) : List Bool :=
  match bbHeaderRead rx.bb bbframe with
  | .error _ => []
  | .ok (descrambled, header) =>
    match tsRxStart rx header with
    | .error _ => []
    | .ok start => (descrambled.drop (bbHeaderBits + start)).take (header.dfl - start)

/-- A push that succeeds has read a header, passed the acceptance test and run the loop to its
end, within the capacity. -/
theorem tsRxPush_accepted {rx : TsRx} {bbframe : List Bool} {packets : List PacketBuf}
    {packetCapacity : ℕ} (hret : (tsRxPush rx bbframe packets packetCapacity).ret = ok) :
    ∃ header start l, tsRxStart rx header = .ok start ∧
      (tsRxTaken rx bbframe).length ≤ header.dfl - start ∧
      tsRxNeeded rx header.dfl start ≤ packetCapacity ∧
      (tsRxTaken rx bbframe).foldlM tsRxPushBit
        ⟨rx.packet, rx.previous, rx.packetBits, rx.havePrevious, []⟩ = .ok l ∧
      tsRxPush rx bbframe packets packetCapacity =
        ⟨ok, ⟨rx.bb, l.packet, l.previous, l.packetBits, l.havePrevious⟩,
          memcpyAt packets 0 l.output, l.output.length⟩ := by
  cases hread : bbHeaderRead rx.bb bbframe with
  | error e =>
    have hne : e ≠ ok := by
      rcases bbHeaderRead_error hread with rfl | rfl <;> decide
    rw [tsRxPush, hread] at hret
    exact absurd hret hne
  | ok r =>
    obtain ⟨descrambled, header⟩ := r
    cases hstart : tsRxStart rx header with
    | error e =>
      have hne : e ≠ ok := by
        rcases tsRxStart_error hstart with rfl | rfl <;> decide
      rw [tsRxPush, hread] at hret
      dsimp only at hret
      rw [hstart] at hret
      exact absurd hret hne
    | ok start =>
      have htaken : tsRxTaken rx bbframe
          = (descrambled.drop (bbHeaderBits + start)).take (header.dfl - start) := by
        rw [tsRxTaken, hread]
        dsimp only
        rw [hstart]
      have hpush := tsRxPush_of_start packets packetCapacity hread hstart
      dsimp only at hpush
      rw [← htaken] at hpush
      by_cases hroom : packetCapacity < tsRxNeeded rx header.dfl start
      · rw [hpush, if_pos hroom] at hret
        exact absurd (show errShort = ok from hret) (by decide)
      · rw [if_neg hroom] at hpush
        cases hloop : (tsRxTaken rx bbframe).foldlM tsRxPushBit
            ⟨rx.packet, rx.previous, rx.packetBits, rx.havePrevious, []⟩ with
        | error e =>
          obtain rfl := tsRxPushBits_error _ _ hloop
          rw [hpush, hloop] at hret
          exact absurd (show errCrc = ok from hret) (by decide)
        | ok l =>
          rw [hloop] at hpush
          refine ⟨header, start, l, hstart, ?_, not_lt.mp hroom, rfl, hpush⟩
          rw [htaken]
          exact List.length_take_le _ _

/-- A receiver and the descrambled bits it has taken in since it last had to synchronise. -/
structure TsRxTrace where
  rx : TsRx
  stream : List Bool

def tsRxTraceStep (s : TsRxTrace) (op : TsRxOp) : TsRxTrace where
  rx := tsRxStep s.rx op
  stream :=
    match op with
    | .push bbframe packets packetCapacity =>
      if (tsRxPush s.rx bbframe packets packetCapacity).ret = ok then
        s.stream ++ tsRxTaken s.rx bbframe
      else s.stream
    | .reset => []
    | .finalize packet packetCapacity =>
      if (tsRxFinalizeUnchecked s.rx packet packetCapacity).ret = ok then [] else s.stream

def tsRxTrace (rx : TsRx) (ops : List TsRxOp) : TsRxTrace := ops.foldl tsRxTraceStep ⟨rx, []⟩

/-- A packet of the stream: a marker, the last 187 bytes of the packet, and behind them the byte
that is their CRC. -/
structure CrcFollows (stream : List Bool) (packet : PacketBuf) : Prop where
  sync : packet[0] = 0x47
  placed : ∃ k, (k + 1) * tsPacketBits + 8 ≤ stream.length ∧
    (∀ c, 0 < c → c < tsPacketSize →
      packet.toList.getD c 0 = bitsByte stream (k * tsPacketBits + 8 * c)) ∧
    packetCrc packet = bitsByte stream ((k + 1) * tsPacketBits)

/-- A finite stream as a function. -/
abbrev streamFn (stream : List Bool) (g : ℕ) : Bool := stream.getD g false

theorem rxByte_streamFn (stream : List Bool) (g : ℕ) :
    rxByte (streamFn stream) g = bitsByte stream g := by
  apply BitVec.eq_of_getLsbD_eq
  intro j hj
  rw [rxByte_getLsbD _ _ _ hj, bitsByte_getLsbD _ _ _ hj]

/-- A chunk that passed its check. -/
theorem CrcFollows.of_rxCheck {stream : List Bool} {k : ℕ} (hk : k < verified stream.length)
    (hcheck : rxCheck (streamFn stream) k) : CrcFollows stream (rxChunk (streamFn stream) k) := by
  refine ⟨rxChunk_sync _ k, k, ?_, fun c hpos hc => ?_, ?_⟩
  · have hdiv := Nat.div_mul_le_self stream.length tsPacketBits
    have hle : (k + 1 + 1) * tsPacketBits ≤ stream.length / tsPacketBits * tsPacketBits :=
      Nat.mul_le_mul_right _ (by rw [verified] at hk; omega)
    have hpacket : 8 ≤ tsPacketBits := by decide
    rw [Nat.succ_mul] at hle
    omega
  · rw [rxChunk_getD _ _ _ hc, if_neg (by omega), rxByte_streamFn]
  · rw [← rxByte_streamFn]
    exact hcheck

/-- The state of a receiver depends on the bits it has consumed only. -/
theorem RxOver.congr {t t' : ℕ → Bool} {b : ℕ} {packet previous : PacketBuf} {packetBits : ℕ}
    {havePrevious : Bool} (h : RxOver t b packet previous packetBits havePrevious)
    (ht : ∀ g < b, t' g = t g) : RxOver t' b packet previous packetBits havePrevious := by
  have hblock := Nat.div_add_mod' b tsPacketBits
  refine ⟨h.bits, h.have_iff, fun hpos => ?_, ?_⟩
  · rw [h.previous_eq hpos]
    have hchunk : (b / tsPacketBits - 1) * tsPacketBits + tsPacketBits
        = b / tsPacketBits * tsPacketBits := by
      rw [← Nat.succ_mul]
      congr 1
      omega
    apply Vector.ext
    intro c hc
    simp only [rxChunk, Vector.getElem_ofFn]
    split
    · rfl
    · apply BitVec.eq_of_getLsbD_eq
      intro j hj
      rw [rxByte_getLsbD _ _ _ hj, rxByte_getLsbD _ _ _ hj]
      refine (ht _ ?_).symm
      simp only [tsPacketBits, tsPacketSize] at *
      omega
  · refine ⟨fun i hi => ?_, h.partial_eq.clear⟩
    rw [h.partial_eq.filled i hi, ht _ (by omega)]

/-- The receiver has consumed the stream that is kept beside it. -/
structure TsRxTraced (bb : BbFrameCtx) (s : TsRxTrace) : Prop where
  bb_eq : s.rx.bb = bb
  held : RxOver (streamFn s.stream) s.stream.length s.rx.packet s.rx.previous s.rx.packetBits
    s.rx.havePrevious

section Trace
variable {bb : BbFrameCtx} {s : TsRxTrace}

theorem TsRxTraced.inv (h : TsRxTraced bb s) : TsRxInv bb s.rx :=
  ⟨h.bb_eq, by rw [h.held.bits]; exact Nat.mod_lt _ (by decide)⟩

/-- A receiver that has nothing has consumed nothing. -/
theorem TsRxTraced.empty {rx : TsRx} (hbb : rx.bb = bb) (hbits : rx.packetBits = 0)
    (hhave : rx.havePrevious = false) : TsRxTraced bb ⟨rx, []⟩ :=
  ⟨hbb, hbits, hhave.trans (by simp), fun hpos => absurd hpos (by simp), BitPrefix.zero _ _⟩

/-- The receiver looks for a packet boundary exactly when its stream is empty, so every later frame
continues the stream with the first bit of its data field. -/
theorem TsRxTraced.fresh_iff (h : TsRxTraced bb s) :
    s.rx.packetBits = 0 ∧ s.rx.havePrevious = false ↔ s.stream = [] := by
  have hdiv := Nat.div_add_mod' s.stream.length tsPacketBits
  rw [h.held.bits, h.held.have_iff, decide_eq_false_iff_not, Nat.pos_iff_ne_zero, not_not,
    ← List.length_eq_zero_iff]
  constructor
  · rintro ⟨hmod, hzero⟩
    rw [hmod, hzero] at hdiv
    omega
  · intro hlen
    rw [hlen]
    exact ⟨Nat.zero_mod _, Nat.zero_div _⟩

/-- **An accepted frame.**  The receiver has consumed the bits of the frame too, and the packets it
hands out fit and are chunks of the stream that passed their checks. -/
theorem TsRxTraced.push (hbb : bb.Valid) (h : TsRxTraced bb s) {bbframe : List Bool}
    {packets : List PacketBuf} {packetCapacity : ℕ}
    (hret : (tsRxPush s.rx bbframe packets packetCapacity).ret = ok) :
    TsRxTraced bb ⟨(tsRxPush s.rx bbframe packets packetCapacity).rx,
        s.stream ++ tsRxTaken s.rx bbframe⟩ ∧
      ∃ output : List PacketBuf,
        (tsRxPush s.rx bbframe packets packetCapacity).packets = memcpyAt packets 0 output ∧
        (tsRxPush s.rx bbframe packets packetCapacity).packetCount = output.length ∧
        output.length ≤ min packetCapacity tsMaxPacketsPerFrame ∧
        ∀ packet ∈ output, CrcFollows (s.stream ++ tsRxTaken s.rx bbframe) packet := by
  obtain ⟨header, start, l, hstart, hlength, hroom, hloop, hpush⟩ := tsRxPush_accepted hret
  generalize tsRxTaken s.rx bbframe = taken at hlength hloop ⊢
  -- the bits of this frame are the next ones of the longer stream
  have hheld : RxOver (streamFn (s.stream ++ taken)) s.stream.length s.rx.packet
      s.rx.previous s.rx.packetBits s.rx.havePrevious :=
    h.held.congr fun g hg => List.getD_append _ _ _ _ hg
  have hbits : taken = (List.range taken.length).map fun i =>
      streamFn (s.stream ++ taken) (s.stream.length + i) := by
    refine list_ext_getD false (by simp) fun j hj => ?_
    rw [getD_map_range, if_pos hj, streamFn,
      List.getD_append_right _ _ _ _ (Nat.le_add_right _ _), Nat.add_sub_cancel_left]
  obtain ⟨hok, herror⟩ := tsRxPushBits_over
    (l := ⟨s.rx.packet, s.rx.previous, s.rx.packetBits, s.rx.havePrevious, []⟩) hheld
    taken.length
  rw [← hbits, ← List.length_append] at hok herror
  have hchecked : ∀ k, verified s.stream.length ≤ k →
      k < verified (s.stream ++ taken).length → rxCheck (streamFn (s.stream ++ taken)) k := by
    intro k hlow hhigh
    by_contra hcheck
    cases hloop.symm.trans (herror k hlow hhigh hcheck)
  obtain ⟨l', hloop', hover, hout⟩ := hok hchecked
  obtain rfl := Except.ok.inj (hloop.symm.trans hloop')
  obtain ⟨hneeded, hmax⟩ := tsRxPushBits_length hbb h.inv hstart hlength hloop
  rw [hpush]
  refine ⟨⟨h.bb_eq, hover⟩, l.output, rfl, rfl, le_min (hneeded.trans hroom) hmax,
    fun packet hmem => ?_⟩
  rw [hout, List.nil_append, chunksFrom] at hmem
  obtain ⟨i, hi, rfl⟩ := List.mem_map.mp hmem
  rw [List.mem_range] at hi
  exact .of_rxCheck (by omega) (hchecked _ (Nat.le_add_right _ _) (by omega))

/-- A frame that is not accepted leaves the receiver and the packets alone. -/
theorem tsRxPush_not_ok {rx : TsRx} (hpb : rx.packetBits < tsPacketBits) {bbframe : List Bool}
    {packets : List PacketBuf} {packetCapacity : ℕ}
    (hret : (tsRxPush rx bbframe packets packetCapacity).ret ≠ ok) :
    (tsRxPush rx bbframe packets packetCapacity).rx = rx ∧
      (tsRxPush rx bbframe packets packetCapacity).packets = packets := by
  cases tsRxPush_fate rx bbframe hpb with
  | rejected e he hall =>
    rw [hall]
    exact ⟨rfl, rfl⟩
  | broken n hshort hroom =>
    obtain hlt | hle := lt_or_ge packetCapacity n
    · rw [hshort _ _ hlt]
      exact ⟨rfl, rfl⟩
    · rw [hroom _ _ hle]
      exact ⟨rfl, rfl⟩
  | emits n rx' output hshort hroom hbb hbits hcount =>
    obtain hlt | hle := lt_or_ge packetCapacity n
    · rw [hshort _ _ hlt]
      exact ⟨rfl, rfl⟩
    · rw [hroom _ _ hle] at hret
      exact absurd rfl hret

/-- What `dvbs2x_ts_rx_finalize_unchecked` does: it fails, or it hands out the packet that is held,
if any, within the capacity. -/
theorem tsRxFinalize_cases (rx : TsRx) (packet : List PacketBuf) (packetCapacity : ℕ) :
    tsRxFinalizeUnchecked rx packet packetCapacity = ⟨errShort, rx, packet, 1⟩ ∨
      ∃ output : List PacketBuf, tsRxFinalizeUnchecked rx packet packetCapacity
          = ⟨ok, tsRxReset rx, memcpyAt packet 0 output, output.length⟩ ∧
        output.length ≤ min packetCapacity tsMaxPacketsPerFrame := by
  have hmax : 1 ≤ tsMaxPacketsPerFrame := by decide
  unfold tsRxFinalizeUnchecked
  split_ifs with hshort hhave
  · exact Or.inl rfl
  · have hcap : 1 ≤ packetCapacity := Nat.one_le_iff_ne_zero.mpr fun h => hshort ⟨hhave, h⟩
    exact Or.inr ⟨[rx.previous], rfl, le_min hcap hmax⟩
  · refine Or.inr ⟨[], ?_, Nat.zero_le _⟩
    simp [memcpyAt]

theorem TsRxTraced.step (hbb : bb.Valid) (h : TsRxTraced bb s) (op : TsRxOp) :
    TsRxTraced bb (tsRxTraceStep s op) := by
  cases op with
  | push bbframe packets packetCapacity =>
    by_cases hret : (tsRxPush s.rx bbframe packets packetCapacity).ret = ok
    · simp only [tsRxTraceStep, tsRxStep, if_pos hret]
      exact (h.push hbb hret).1
    · simp only [tsRxTraceStep, tsRxStep, if_neg hret]
      rw [(tsRxPush_not_ok h.inv.bits_lt hret).1]
      exact h
  | reset => exact .empty h.bb_eq rfl rfl
  | finalize packet packetCapacity =>
    simp only [tsRxTraceStep, tsRxStep]
    obtain hfin | ⟨output, hfin, -⟩ := tsRxFinalize_cases s.rx packet packetCapacity
    · rw [hfin, if_neg (show ¬errShort = ok by decide)]
      exact h
    · rw [hfin, if_pos rfl]
      exact .empty h.bb_eq rfl rfl

/-- **Any sequence of calls**, by induction on it. -/
theorem TsRxTraced.run (hbb : bb.Valid) (h : TsRxTraced bb s) (ops : List TsRxOp) :
    TsRxTraced bb (ops.foldl tsRxTraceStep s) := by
  induction ops generalizing s with
  | nil => exact h
  | cons op ops ih => exact ih (h.step hbb op)

end Trace

theorem tsRxTrace_rx (rx : TsRx) (ops : List TsRxOp) : (tsRxTrace rx ops).rx = tsRxOps rx ops := by
  have hrun : ∀ s : TsRxTrace, (ops.foldl tsRxTraceStep s).rx = ops.foldl tsRxStep s.rx := by
    induction ops with
    | nil => exact fun s => rfl
    | cons op ops ih => exact fun s => ih (tsRxTraceStep s op)
  exact hrun ⟨rx, []⟩

/-- **The receiver is safe on arbitrary frames.**  After any sequence of pushes, resets and
finalizations, whatever the frames, a packet is never complete; every array access of the next call
is in range; a push or a finalization that succeeds writes at most the capacity and at most the
bound for a frame, and one that does not succeed writes nothing; and every packet that a push hands
out starts with the sync byte and is followed, in the descrambled bit stream, by its CRC.  The
stream starts where the receiver has nothing and looks for a packet boundary. -/
theorem tsRx_safe {modcod : Modcod} (hmodcod : modcod ∈ vlsnrModcodTable) (ops : List TsRxOp) :
    let s := tsRxTrace (tsRxInit modcod) ops
    s.rx = tsRxOps (tsRxInit modcod) ops ∧ s.rx.packetBits < tsPacketBits ∧
      (s.rx.packetBits = 0 ∧ s.rx.havePrevious = false ↔ s.stream = []) ∧
      (∀ op, ∀ a ∈ tsRxOpAccesses s.rx op, a.InRange) ∧
      (∀ (bbframe : List Bool) (packets : List PacketBuf) (packetCapacity : ℕ),
        let push := tsRxPush s.rx bbframe packets packetCapacity
        (push.ret ≠ ok → push.packets = packets) ∧
          (push.ret = ok → ∃ output : List PacketBuf, push.packets = memcpyAt packets 0 output ∧
            push.packetCount = output.length ∧
            output.length ≤ min packetCapacity tsMaxPacketsPerFrame ∧
            ∀ packet ∈ output, CrcFollows (s.stream ++ tsRxTaken s.rx bbframe) packet)) ∧
      ∀ (packet : List PacketBuf) (packetCapacity : ℕ),
        let fin := tsRxFinalizeUnchecked s.rx packet packetCapacity
        (fin.ret ≠ ok → fin.packets = packet) ∧
          (fin.ret = ok → ∃ output : List PacketBuf, fin.packets = memcpyAt packet 0 output ∧
            fin.packetCount = output.length ∧
            output.length ≤ min packetCapacity tsMaxPacketsPerFrame) := by
  intro s
  have hbb : (tsRxInit modcod).bb.Valid := tsContext_valid hmodcod 0
  have h : TsRxTraced (tsRxInit modcod).bb s :=
    TsRxTraced.run hbb (.empty rfl rfl rfl) ops
  refine ⟨tsRxTrace_rx _ ops, h.inv.bits_lt, h.fresh_iff, tsRxOp_inRange hbb h.inv,
    fun bbframe packets packetCapacity => ?_, fun packet packetCapacity => ?_⟩
  · exact ⟨fun hret => (tsRxPush_not_ok h.inv.bits_lt hret).2, fun hret => (h.push hbb hret).2⟩
  · intro fin
    obtain hfin | ⟨output, hfin, hle⟩ := tsRxFinalize_cases s.rx packet packetCapacity
    · refine ⟨fun _ => by simp only [fin, hfin], fun hret => ?_⟩
      simp only [fin, hfin] at hret
      exact absurd hret (by decide)
    · refine ⟨fun hret => ?_, fun _ => ⟨output, by simp only [fin, hfin], ?_, hle⟩⟩
      · simp only [fin, hfin] at hret
        exact absurd rfl hret
      · simp only [fin, hfin]

/-- The second frame of a stream of the second MODCOD brings four packets. -/
theorem tsRx_safe_two :
    let mc := vlsnrModcodTable[1]
    let frame := frameAt (tsContext mc 0) fun _ => default
    let s := tsRxTrace (tsRxInit mc) [.push (frame 0) [] 16]
    (∀ a ∈ tsRxOpAccesses s.rx (.push (frame 1) [] 16), a.InRange) ∧
      ∃ output : List PacketBuf, (tsRxPush s.rx (frame 1) [] 16).packets = output ∧
        output.length = 4 ∧
        ∀ packet ∈ output, CrcFollows (s.stream ++ tsRxTaken s.rx (frame 1)) packet := by
  intro mc frame s
  have hmc : mc ∈ vlsnrModcodTable := List.getElem_mem _
  have hvalid := tsContext_valid hmc 0
  have hdfl : (tsContext mc 0).dfl = 5580 := tsContext_dfl hmc 0
  have hcapacity : ((tsContext mc 0).dfl + (tsPacketBits - 1)) / tsPacketBits ≤ 16 := by
    rw [hdfl]
    decide
  have hfresh : RxAt (tsContext mc 0) (fun _ => default) 0 0 (tsRxInit mc) :=
    rxAt_reset _ 0 (tsRxInit mc) rfl rfl
  -- the two frames
  obtain ⟨-, hfirst, -⟩ := tsRxPush_spec (j := 0) hvalid hfresh 0 (by rw [Nat.zero_mul, Nat.zero_mul])
    (by rw [if_pos rfl, hdfl]; rfl) (frame 0) (frameAt_take hvalid _ 0) [] 16 hcapacity
  rw [hdfl, show 0 + (5580 - 0) = 5580 by norm_num] at hfirst
  obtain ⟨hok, -, hout⟩ := tsRxPush_spec (j := 1) hvalid hfirst 0
    (by rw [hdfl]; norm_num) (by rw [if_neg (by norm_num)]) (frame 1)
    (frameAt_take hvalid _ 1) [] 16 hcapacity
  rw [hdfl] at hout
  have hsafe := tsRx_safe hmc [.push (frame 0) [] 16]
  extract_lets at hsafe
  obtain ⟨hrx, -, -, hrange, hpush, -⟩ := hsafe
  rw [tsRxOps, List.foldl_cons, List.foldl_nil, tsRxStep] at hrx
  rw [← hrx] at hok hout
  clear_value s
  obtain ⟨output, hpackets, hcount, -, hcrc⟩ := (hpush (frame 1) [] 16).2 hok
  have hwritten : memcpyAt [] 0 output = output := by simp [memcpyAt]
  rw [hwritten] at hpackets
  rw [hpackets, hcount, List.take_length] at hout
  refine ⟨hrange _, output, hpackets, ?_, hcrc⟩
  rw [hout, packetsFrom, List.length_map, List.length_range]
  decide

end OpenVlsnr
