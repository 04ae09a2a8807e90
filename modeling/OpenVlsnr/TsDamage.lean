import OpenVlsnr.Crc8
import OpenVlsnr.TsRoundTrip

/-!
# Damaged transport packets (`bb_frame.c`)

Flips of data-field bits are a set of positions of the packet bit stream.  The receiver sees the
damaged stream, frame by frame (`damagedFrame_holds`), and the codeword of packet `i` is its last
187 bytes followed by the marker of packet `i + 1`, usually in a later frame (`spanBits`).  What
the flips alone leave in the CRC register decides whether the packet passes
(`rxCheck_damaged`), and a packet that does not pass ends the run.

`tsDamage_detected`: flips of packet `i` that are odd, or within eight consecutive bits, keep it
from being handed out.
-/

namespace OpenVlsnr

/-! ### The codeword of a packet -/

/-- The last 187 bytes of packet `i` and the sync byte position behind it. -/
def spanBits (t : ℕ → Bool) (i : ℕ) : List Bool :=
  (List.range tsPacketBits).map fun k => t (i * tsPacketBits + 8 + k)

theorem spanBits_length (t : ℕ → Bool) (i : ℕ) : (spanBits t i).length = tsPacketBits := by
  rw [spanBits, List.length_map, List.length_range]

/-- The bytes that the check reads are the bits of the span. -/
theorem span_bytes (t : ℕ → Bool) (i : ℕ) :
    ((rxChunk t i).toList.drop 1 ++ [rxMarker t (i + 1)]).flatMap byteBits = spanBits t i := by
  have hsize : ((rxChunk t i).toList.drop 1).length = 187 := by
    rw [List.length_drop, Vector.length_toList]
    rfl
  have hlen : ((rxChunk t i).toList.drop 1 ++ [rxMarker t (i + 1)]).length = 188 := by
    rw [List.length_append, hsize, List.length_singleton]
  refine list_ext_getD false ?_ fun j hj => ?_
  · rw [flatMap_byteBits_length, hlen, spanBits_length]
    rfl
  · rw [flatMap_byteBits_length, hlen] at hj
    have hbits := getD_flatMap_byteBits _ [] (j / 8) (j % 8) (by rw [hlen]; omega)
      (Nat.mod_lt j (by decide))
    rw [List.append_nil, Nat.div_add_mod' j 8] at hbits
    rw [hbits, spanBits, getD_map_range, if_pos (by simp only [tsPacketBits]; omega)]
    by_cases hc : j / 8 < 187
    · have hbyte : j / 8 + 1 < tsPacketSize := by simp only [tsPacketSize]; omega
      rw [List.getD_append _ _ _ _ (by rw [hsize]; exact hc), getD_drop, Nat.add_comm 1,
        rxChunk_getD _ _ _ hbyte, if_neg (Nat.succ_ne_zero _), rxByte_getLsbD _ _ _ (by omega)]
      refine congrArg t ?_
      omega
    · rw [List.getD_append_right _ _ _ _ (by rw [hsize]; omega), hsize,
        show j / 8 - 187 = 0 by omega, List.getD_cons_zero, rxMarker,
        rxByte_getLsbD _ _ _ (by omega), Nat.add_one_mul]
      refine congrArg t ?_
      have hbits : tsPacketBits = 1504 := rfl
      omega

/-- **The check of packet `i`** is the check of a codeword. -/
theorem rxCheck_iff_run (t : ℕ → Bool) (i : ℕ) :
    rxCheck t i ↔ crc8Register.run 0 (spanBits t i) = 0 := by
  rw [rxCheck, packetCrc, bbCrc8_eq_iff, span_bytes]

/-! ### Flips -/

/-- Flips that the CRC of a packet detects: an odd number of them, or some within eight
consecutive bits. -/
def SpanDamage (e : List Bool) : Prop := e.count true % 2 = 1 ∨ BurstWithin 8 e

/-- The stream with the positions flipped that `flip` marks. -/
def damagedStream (t flip : ℕ → Bool) (g : ℕ) : Bool := t g ^^ flip g

/-- **A damaged packet fails its check.** -/
theorem rxCheck_damaged {t flip : ℕ → Bool} {i : ℕ} (ht : rxCheck t i)
    (hdamage : SpanDamage (spanBits flip i)) : ¬rxCheck (damagedStream t flip) i := by
  have hzip : spanBits (damagedStream t flip) i
      = List.zipWith xor (spanBits t i) (spanBits flip i) := by
    simp only [spanBits, damagedStream, List.zipWith_map, List.zipWith_self]
  have hdetect : crc8Register.run 0 (spanBits flip i) ≠ 0 := by
    refine crc8_detects ?_
    obtain hodd | hburst := hdamage
    · exact Or.inl hodd
    · exact Or.inr (Or.inr ⟨by rw [spanBits_length]; decide, hburst⟩)
  rw [rxCheck_iff_run, hzip, crc8Register.run_damaged (by rw [spanBits_length, spanBits_length]),
    (rxCheck_iff_run t i).mp ht]
  exact fun h => hdetect (BitVec.xor_eq_zero_iff.mp h).symm

/-- Frame `j` with flips in its data field. -/
def damageData (d : ℕ) (flip : ℕ → Bool) (j : ℕ) (frame : List Bool) : List Bool :=
  List.zipWith xor frame
    (List.replicate bbHeaderBits false ++ (List.range d).map fun i => flip (j * d + i))

/-- A damaged frame carries the damaged stream under the header as sent. -/
theorem damagedFrame_holds {bb : BbFrameCtx} (hbb : bb.Valid) (p : ℕ → TsPacket)
    (flip : ℕ → Bool) (j : ℕ) :
    FrameHolds bb.kBch (bbHeaderBytes bb bb.dfl tsPacketBits 0x47 (syncdAt bb.dfl j) 0xf0)
      ((List.range bb.dfl).map fun i => damagedStream (streamFrom p 0) flip (j * bb.dfl + i))
      (damageData bb.dfl flip j (frameAt bb p j)) := by
  set hdr := (bbHeaderBytes bb bb.dfl tsPacketBits 0x47 (syncdAt bb.dfl j) 0xf0).flatMap byteBits
    with hhdr
  have hlen : hdr.length = bbHeaderBits := by
    rw [hhdr, flatMap_byteBits_length, bbHeaderBytes_length]
  have hzip : List.zipWith xor (hdr ++ fieldBits p bb.dfl j)
      (List.replicate bbHeaderBits false ++ (List.range bb.dfl).map fun i => flip (j * bb.dfl + i))
      = hdr ++ (List.range bb.dfl).map fun i =>
          damagedStream (streamFrom p 0) flip (j * bb.dfl + i) := by
    rw [List.zipWith_append (by rw [hlen, List.length_replicate])]
    congr 1
    · rw [← hlen]
      refine list_ext_getD false (by simp) fun i hi => ?_
      rw [List.length_zipWith, List.length_replicate, min_self] at hi
      simp [List.getD_eq_getElem?_getD, hi]
    · simp only [fieldBits, List.zipWith_map, List.zipWith_self, damagedStream, streamFrom,
        Nat.zero_mul, Nat.zero_add]
  have hframe : damageData bb.dfl flip j (frameAt bb p j)
      = bbScrambleFrom bbPrbsInit (hdr ++ (List.range bb.dfl).map fun i =>
          damagedStream (streamFrom p 0) flip (j * bb.dfl + i)) := by
    rw [damageData, frameAt, tsFrameBits, ← hhdr, ← bbScrambleFrom_xor, hzip]
  refine ⟨bbHeaderBytes_length _ _ _ _ _ _, ?_, hbb.kBch_le, ?_⟩
  · rw [List.length_map, List.length_range, hbb.kBch_eq]
  · rw [hframe]
    refine List.take_of_length_le ?_
    rw [bbScrambleFrom_length, List.length_append, hlen, List.length_map, List.length_range,
      hbb.kBch_eq]

/-! ### A run up to its first error -/

section Run
variable {bb : BbFrameCtx} (p : ℕ → TsPacket) (flip : ℕ → Bool) (out : List PacketBuf)
  (packetCapacity : ℕ)

/-- The receiver after `m` damaged frames. -/
def damagedRun (bb : BbFrameCtx) (rx : TsRx) (m : ℕ) : TsRxRun :=
  tsRxRun out packetCapacity rx
    ((List.range m).map fun j => damageData bb.dfl flip j (frameAt bb p j))

/-- The push of frame `m` after them. -/
def damagedPush (bb : BbFrameCtx) (rx : TsRx) (m : ℕ) : TsRxPush :=
  tsRxPush (damagedRun p flip out packetCapacity bb rx m).rx
    (damageData bb.dfl flip m (frameAt bb p m)) out packetCapacity

theorem damagedRun_succ (bb : BbFrameCtx) (rx : TsRx) (m : ℕ) :
    damagedRun p flip out packetCapacity bb rx (m + 1) =
      { rx := (damagedPush p flip out packetCapacity bb rx m).rx
        packets := (damagedRun p flip out packetCapacity bb rx m).packets ++
          (damagedPush p flip out packetCapacity bb rx m).packets.take
            (damagedPush p flip out packetCapacity bb rx m).packetCount
        rets := (damagedRun p flip out packetCapacity bb rx m).rets ++
          [(damagedPush p flip out packetCapacity bb rx m).ret] } := by
  simp only [damagedRun, tsRxRun, List.range_succ, List.map_append, List.map_singleton,
    List.foldl_append, List.foldl_cons, List.foldl_nil]
  rfl

/-- The receiver at the start of frame `m`: it has handed out the packets verified so far, and all
of them passed their checks. -/
structure DamagedAt (bb : BbFrameCtx) (m : ℕ) (r : TsRxRun) : Prop where
  rx : RxOverAt bb (damagedStream (streamFrom p 0) flip) (m * bb.dfl) r.rx
  packets : r.packets.length = verified (m * bb.dfl)
  checked : ∀ k < verified (m * bb.dfl), rxCheck (damagedStream (streamFrom p 0) flip) k

variable {p flip out packetCapacity} {rx : TsRx} {m : ℕ} (hbb : bb.Valid)
include hbb

/-- **One damaged frame.** -/
theorem DamagedAt.push (h : DamagedAt p flip bb m (damagedRun p flip out packetCapacity bb rx m)) :
    ((damagedPush p flip out packetCapacity bb rx m).ret = ok →
        DamagedAt p flip bb (m + 1) (damagedRun p flip out packetCapacity bb rx (m + 1))) ∧
      ((bb.dfl + (tsPacketBits - 1)) / tsPacketBits ≤ packetCapacity →
        ((∀ k < verified ((m + 1) * bb.dfl), rxCheck (damagedStream (streamFrom p 0) flip) k) →
            (damagedPush p flip out packetCapacity bb rx m).ret = ok) ∧
          ∀ k < verified ((m + 1) * bb.dfl), ¬rxCheck (damagedStream (streamFrom p 0) flip) k →
            damagedPush p flip out packetCapacity bb rx m
              = ⟨errCrc, (damagedRun p flip out packetCapacity bb rx m).rx, out, 0⟩) := by
  set r := damagedRun p flip out packetCapacity bb rx m with hr
  have hnext : (m + 1) * bb.dfl = m * bb.dfl + (bb.dfl - 0) := by
    rw [Nat.add_one_mul, Nat.sub_zero]
  have hmono : verified (m * bb.dfl) ≤ verified ((m + 1) * bb.dfl) :=
    verified_mono (Nat.mul_le_mul_right _ (Nat.le_succ m))
  have hstart : if m * bb.dfl = 0 then 0 = syncdAt bb.dfl m else 0 = 0 := by
    split
    · rename_i hz
      rw [syncdAt, hz]
      rfl
    · rfl
  have hpos : m * bb.dfl + 0 = 0 * tsPacketBits + m * bb.dfl := by simp
  have hholds := damagedFrame_holds hbb p flip m
  have hfield : ((List.range bb.dfl).map fun i =>
      damagedStream (streamFrom p 0) flip (m * bb.dfl + i)).drop 0
        = (List.range (bb.dfl - 0)).map fun i =>
          damagedStream (streamFrom p 0) flip (m * bb.dfl + i) := rfl
  have hframe := fun hroom : tsRxNeeded r.rx bb.dfl 0 ≤ packetCapacity =>
    tsRxPush_over hbb h.rx hpos hstart hholds hfield out hroom
  rw [← hnext] at hframe
  constructor
  · intro hret
    obtain ⟨hok, herror⟩ := hframe (tsRxPush_room hbb h.rx hpos hstart hholds hfield out hret)
    have hchecked : ∀ k < verified ((m + 1) * bb.dfl),
        rxCheck (damagedStream (streamFrom p 0) flip) k := fun k hk => by
      by_contra hcheck
      obtain hlt | hge := lt_or_ge k (verified (m * bb.dfl))
      · exact hcheck (h.checked k hlt)
      · have hfail := herror k hge hk hcheck
        rw [damagedPush, ← hr, hfail] at hret
        exact absurd (show errCrc = ok from hret) (by decide)
    obtain ⟨l, hpush, hover, hout⟩ := hok fun k _ hk => hchecked k hk
    rw [damagedRun_succ, damagedPush, ← hr, hpush]
    refine ⟨⟨h.rx.kBch_eq, h.rx.dfl_eq, hover⟩, ?_, hchecked⟩
    rw [List.length_append, h.packets, memcpyAt, List.take_zero, List.nil_append,
      List.take_append_of_le_length le_rfl, List.take_length, hout, chunksFrom, List.length_map,
      List.length_range, Nat.add_sub_cancel' hmono]
  · intro hcap
    obtain ⟨hok, herror⟩ := hframe ((tsRxNeeded_le h.rx 0).trans hcap)
    constructor
    · intro hcheck
      obtain ⟨l, hpush, -⟩ := hok fun k _ hk => hcheck k hk
      rw [damagedPush, ← hr, hpush]
    · intro k hk hcheck
      exact herror k (not_lt.mp fun hlt => hcheck (h.checked k hlt)) hk hcheck

/-- **A run without errors.** -/
theorem damagedRun_at (h : RxOverAt bb (damagedStream (streamFrom p 0) flip) 0 rx)
    (hrets : ∀ ret ∈ (damagedRun p flip out packetCapacity bb rx m).rets, ret = ok) :
    DamagedAt p flip bb m (damagedRun p flip out packetCapacity bb rx m) := by
  induction m with
  | zero =>
    refine ⟨by rw [Nat.zero_mul]; exact h, ?_, ?_⟩
    · rw [Nat.zero_mul]
      rfl
    · rw [Nat.zero_mul]
      exact fun k hk => absurd hk (Nat.not_lt_zero k)
  | succ m ih =>
    rw [damagedRun_succ] at hrets
    exact ((ih fun ret hmem => hrets ret (List.mem_append_left _ hmem)).push hbb).1
      (hrets _ (List.mem_append_right _ (List.mem_singleton_self _)))

variable (out) in
theorem damagedRun_ok (h : RxOverAt bb (damagedStream (streamFrom p 0) flip) 0 rx)
    (hcap : (bb.dfl + (tsPacketBits - 1)) / tsPacketBits ≤ packetCapacity)
    (hcheck : ∀ k < verified (m * bb.dfl), rxCheck (damagedStream (streamFrom p 0) flip) k) :
    ∀ ret ∈ (damagedRun p flip out packetCapacity bb rx m).rets, ret = ok := by
  induction m with
  | zero => exact fun ret hmem => absurd hmem List.not_mem_nil
  | succ m ih =>
    have hrets := ih fun k hk => hcheck k
      (hk.trans_le (verified_mono (Nat.mul_le_mul_right _ (Nat.le_succ m))))
    have hpush := (((damagedRun_at hbb h hrets).push hbb).2 hcap).1 hcheck
    rw [damagedRun_succ]
    intro ret hmem
    obtain hold | hnew := List.mem_append.mp hmem
    · exact hrets ret hold
    · rw [List.mem_singleton.mp hnew, hpush]

variable (out) in
/-- **A packet that fails its check stops the run** before it is handed out, at the latest in the
frame that completes the packet after it. -/
theorem damagedRun_stops (h : RxOverAt bb (damagedStream (streamFrom p 0) flip) 0 rx) {i : ℕ}
    (hcheck : ¬rxCheck (damagedStream (streamFrom p 0) flip) i)
    (hcap : (bb.dfl + (tsPacketBits - 1)) / tsPacketBits ≤ packetCapacity) :
    ∃ m, m * bb.dfl < (i + 2) * tsPacketBits ∧
      (∀ ret ∈ (damagedRun p flip out packetCapacity bb rx m).rets, ret = ok) ∧
      damagedPush p flip out packetCapacity bb rx m
        = ⟨errCrc, (damagedRun p flip out packetCapacity bb rx m).rx, out, 0⟩ := by
  classical
  have hd : 0 < bb.dfl := lt_trans (by decide) hbb.packet_lt
  -- the frame that completes packet `i + 1`
  set last := ((i + 2) * tsPacketBits - 1) / bb.dfl with hlast
  have hpacket : 0 < (i + 2) * tsPacketBits := Nat.mul_pos (Nat.succ_pos _) (by decide)
  have hstarts : last * bb.dfl < (i + 2) * tsPacketBits := by
    have hle := Nat.div_mul_le_self ((i + 2) * tsPacketBits - 1) bb.dfl
    rw [← hlast] at hle
    omega
  have hends : i < verified ((last + 1) * bb.dfl) := by
    have hlt := Nat.lt_div_mul_add hd (a := (i + 2) * tsPacketBits - 1)
    rw [← hlast] at hlt
    have hle : (i + 2) * tsPacketBits ≤ (last + 1) * bb.dfl := by
      rw [Nat.add_one_mul last]
      omega
    have hdiv := (Nat.le_div_iff_mul_le (show 0 < tsPacketBits by decide)).mpr hle
    rw [verified]
    omega
  have hexists : ∃ m, ∃ k < verified ((m + 1) * bb.dfl),
      ¬rxCheck (damagedStream (streamFrom p 0) flip) k := ⟨last, i, hends, hcheck⟩
  obtain ⟨k, hk, hfail⟩ := Nat.find_spec hexists
  have hfirst : ∀ k < verified (Nat.find hexists * bb.dfl),
      rxCheck (damagedStream (streamFrom p 0) flip) k := by
    intro k hk
    by_contra hbad
    cases hm : Nat.find hexists with
    | zero =>
      rw [hm, Nat.zero_mul] at hk
      exact Nat.not_lt_zero k hk
    | succ m =>
      rw [hm] at hk
      exact Nat.find_min hexists (by omega) ⟨k, hk, hbad⟩
  have hrets := damagedRun_ok out hbb h hcap hfirst
  refine ⟨Nat.find hexists, ?_, hrets, ?_⟩
  · exact lt_of_le_of_lt (Nat.mul_le_mul_right _ (Nat.find_min' hexists ⟨i, hends, hcheck⟩)) hstarts
  · exact (((damagedRun_at hbb h hrets).push hbb).2 hcap).2 k hk hfail

end Run

/-! ### Transmitted frames -/

/-- **A packet damaged in transit is not delivered.**  The frames that a fresh transmitter emits for
the packets `ps` are damaged by any flips of data-field bits, and fed in order to a receiver that
is fresh or has been reset.  If the flips of packet `i`, whose successor is completed within the
frames, are odd in number or lie within eight consecutive bits, then as long as no push fails
at most `i` packets are handed out, in place of the packets before `i`; and with room for the
packets of a frame, the first push that fails returns `CRC` and writes nothing, in the frame that
completes packet `i + 1` or before. -/
theorem tsDamage_detected {mc : Modcod} (hmc : mc ∈ vlsnrModcodTable) {ro : Byte} {tx : TsTx}
    (htx : tsTxInit mc ro = .ok tx) (ps : List TsPacket) (buf : List Bool) {frameCapacity : ℕ}
    (hfc : mc.kBch ≤ frameCapacity) {rx : TsRx}
    (hrx : rx = tsRxInit mc ∨ ∃ r : TsRx, r.bb = (tsRxInit mc).bb ∧ rx = tsRxReset r)
    (out : List PacketBuf) {d : ℕ} (hd : d = mc.kBch - bbHeaderBits) {f : List (List Bool)}
    (hf : f = (tsTxRun frameCapacity tx buf (ps.map TsPacket.bytes)).frames) (flip : ℕ → Bool)
    {i : ℕ} (hi : (i + 2) * tsPacketBits ≤ f.length * d)
    (hdamage : SpanDamage (spanBits flip i)) :
    let damaged := f.mapIdx (damageData d flip)
    (∀ packetCapacity m,
        let r := tsRxRun out packetCapacity rx (damaged.take m)
        (∀ ret ∈ r.rets, ret = ok) → r.packets.length ≤ i) ∧
      ∀ packetCapacity, (d + (tsPacketBits - 1)) / tsPacketBits ≤ packetCapacity →
        ∃ m < f.length, m * d < (i + 2) * tsPacketBits ∧
          let r := tsRxRun out packetCapacity rx (damaged.take m)
          (∀ ret ∈ r.rets, ret = ok) ∧
            tsRxPush r.rx (damaged.getD m []) out packetCapacity = ⟨errCrc, r.rx, out, 0⟩ := by
  intro damaged
  have hbb := tsContext_valid hmc ro
  have hdfl : (tsContext mc ro).dfl = d := by rw [tsContext_dfl hmc ro, hd]
  set bb := tsContext mc ro with hbbdef
  set p := packetAt default ps with hp
  have hframes : f = (List.range (ps.length * tsPacketBits / d)).map (frameAt bb p) := by
    rw [hf, tsTxRun_frames hmc htx ps buf hfc, hd]
  have hdamaged : damaged
      = (List.range f.length).map fun j => damageData bb.dfl flip j (frameAt bb p j) := by
    apply List.ext_getElem
    · simp [damaged]
    · intro j h₁ h₂
      simp [damaged, hframes, hdfl]
  have hframesUpto : ∀ m ≤ f.length, damaged.take m
      = (List.range m).map fun j => damageData bb.dfl flip j (frameAt bb p j) := fun m hm => by
    rw [hdamaged, ← List.map_take, List.take_range, min_eq_left hm]
  have hat : RxOverAt bb (damagedStream (streamFrom p 0) flip) 0 rx := rxOverAt_fresh ro _ hrx
  have hcheck := rxCheck_damaged (rxCheck_streamFrom p 0 i) hdamage
  constructor
  · intro packetCapacity m r hrets
    -- a run over more frames than there are is a run over all of them
    have hrun : r = damagedRun p flip out packetCapacity bb rx (min m f.length) := by
      have hlen : damaged.length = f.length := by rw [hdamaged, List.length_map, List.length_range]
      rw [damagedRun, ← hframesUpto _ (min_le_right m f.length), ← hlen, ← List.take_eq_take_min]
    rw [hrun] at hrets ⊢
    have hend := damagedRun_at hbb hat hrets
    rw [hend.packets]
    exact not_lt.mp fun hlt => hcheck (hend.checked i hlt)
  · intro packetCapacity hcap
    rw [← hdfl] at hcap hi ⊢
    obtain ⟨m, hm, hrets, hpush⟩ := damagedRun_stops out hbb hat hcheck hcap
    have hlt : m < f.length := Nat.lt_of_mul_lt_mul_right (hm.trans_le hi)
    refine ⟨m, hlt, hm, ?_⟩
    have hframe : damaged.getD m [] = damageData bb.dfl flip m (frameAt bb p m) := by
      rw [hdamaged, getD_map_range, if_pos hlt]
    rw [hframesUpto m hlt.le, hframe]
    exact ⟨hrets, hpush⟩

/-- One flip in the first of four packets through the spread short frame. -/
theorem tsDamage_detected_four :
    let mc := vlsnrModcodTable[4]
    let ps : List TsPacket := List.replicate 4 default
    let f := (tsTxRun 2512 ⟨tsContext mc 0, [], 0, 0⟩ [] (ps.map TsPacket.bytes)).frames
    let damaged := f.mapIdx (damageData 2432 fun g => decide (g = 8))
    ∃ m < f.length, m * 2432 < (0 + 2) * tsPacketBits ∧
      let r := tsRxRun [] 3 (tsRxInit mc) (damaged.take m)
      (∀ ret ∈ r.rets, ret = ok) ∧
        tsRxPush r.rx (damaged.getD m []) [] 3 = ⟨errCrc, r.rx, [], 0⟩ := by
  have hmc : vlsnrModcodTable[4] ∈ vlsnrModcodTable := List.getElem_mem _
  have hinit : tsTxInit vlsnrModcodTable[4] 0
      = .ok ⟨tsContext vlsnrModcodTable[4] 0, [], 0, 0⟩ := rfl
  have hlength : (tsTxRun 2512 ⟨tsContext vlsnrModcodTable[4] 0, [], 0, 0⟩ []
      ((List.replicate 4 (default : TsPacket)).map TsPacket.bytes)).frames.length = 2 := by
    rw [tsTxRun_frames hmc hinit (List.replicate 4 default) [] (by decide), List.length_map,
      List.length_range]
    decide
  have hone : (spanBits (fun g => decide (g = 8)) 0).count true % 2 = 1 := by decide +kernel
  exact (tsDamage_detected hmc hinit (List.replicate 4 default) [] (by decide) (Or.inl rfl) []
    (show 2432 = vlsnrModcodTable[4].kBch - bbHeaderBits from rfl) rfl (fun g => decide (g = 8))
    (i := 0) (by rw [hlength]; decide) (Or.inl hone)).2 3 (by decide)

end OpenVlsnr
