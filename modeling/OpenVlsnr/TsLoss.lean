import OpenVlsnr.TsRoundTrip

/-!
# The TS receiver when frames are lost

A receiver that is reset whenever a push fails, fed some frames of a transmitted stream in order
(`tsRxResyncStep`).  A gap shows in the header of the frame behind it, unless the bits lost are a
multiple of a packet (`tsRxPush_gap`); that frame is spent on it, and the next one joins again.

`Heard` is the state of such a receiver: what has come out are packets of the stream, in order, none
twice, and every packet that lies, with the packet after it, in a stretch of frames received without
a gap, the first of them not counted (`Covered`).
-/

namespace OpenVlsnr

/-! ### Gaps -/

/-- **A gap shows in the next header**, unless what is lost is a whole number of packets. -/
theorem tsRxPush_gap {bb : BbFrameCtx} (hbb : bb.Valid) {p : ℕ → TsPacket} {s b e j : ℕ} {rx : TsRx}
    (h : RxAt bb p s b rx) (hb : 0 < b) (hpos : s * tsPacketBits + b = e * bb.dfl) (hej : e ≤ j)
    (hgap : ¬tsPacketBits ∣ (j - e) * bb.dfl) {frame : List Bool}
    (hframe : frame.take bb.kBch = frameAt bb p j) (packets : List PacketBuf) (packetCapacity : ℕ) :
    tsRxPush rx frame packets packetCapacity = ⟨errNosync, rx, packets, 0⟩ := by
  have hholds := tsFrame_holds bb (syncdAt bb.dfl j) _ frame (fieldBits_length p bb.dfl j)
    hbb.kBch_eq hbb.kBch_le hframe
  have hread := bbHeaderRead_tsFrame rx.bb bb (syncdAt bb.dfl j) (fieldBits p bb.dfl j) frame h.kBch_eq
    (fieldBits_length p bb.dfl j) hbb.kBch_eq hbb.kBch_le
    (lt_trans (syncdAt_lt _ _) (by decide)) hholds.frame_eq
  -- the boundary is not where the receiver expects it
  have hsyncd : syncdAt bb.dfl j
      ≠ if rx.packetBits ≠ 0 then tsPacketBits - rx.packetBits else 0 := by
    intro heq
    have hlost : (j - e) * bb.dfl + e * bb.dfl = j * bb.dfl := by
      rw [← Nat.add_mul, Nat.sub_add_cancel hej]
    refine hgap (Nat.dvd_of_mod_eq_zero ?_)
    rw [syncdAt, h.held.bits] at heq
    generalize (j - e) * bb.dfl = lost at hlost ⊢
    generalize j * bb.dfl = x at heq hlost
    generalize e * bb.dfl = y at hpos hlost
    have hbits : tsPacketBits = 1504 := rfl
    by_cases hz : b % tsPacketBits = 0
    · rw [if_neg (not_not.mpr hz)] at heq
      rw [hbits] at heq hpos hz ⊢
      omega
    · rw [if_pos hz] at heq
      rw [hbits] at heq hpos ⊢
      omega
  have hstart : tsRxStart rx
      { matype1 := 0xf0 ||| (bb.ro &&& 0x03), matype2 := 0, upl := tsPacketBits, dfl := bb.dfl,
        sync := 0x47, syncd := syncdAt bb.dfl j,
        crc8 := (bbHeaderBytes bb bb.dfl tsPacketBits 0x47 (syncdAt bb.dfl j) 0xf0).getD 9 0 }
      = .error errNosync := by
    have hjoined : ¬(rx.packetBits = 0 ∧ rx.havePrevious = false) := by
      rw [h.held.bits, h.held.have_iff]
      have := Nat.div_add_mod b tsPacketBits
      rintro ⟨h₁, h₂⟩
      have h₃ := Nat.eq_zero_of_not_pos (of_decide_eq_false h₂)
      rw [h₁, h₃] at this
      omega
    rw [tsRxStart, if_neg (by simp only [matype1_ts, h.dfl_eq]; simp)]
    dsimp only
    rw [if_neg hjoined, if_pos hsyncd]
  rw [tsRxPush, hread]
  dsimp only
  rw [hstart]

/-! ### Frames received -/

/-- Frame `j` is received next after frame `i`: they are adjacent, or the gap shows. -/
def Follows (d i j : ℕ) : Prop := i < j ∧ (j = i + 1 ∨ ¬tsPacketBits ∣ (j - (i + 1)) * d)

/-- Push one frame; a push that fails resets the receiver. -/
def tsRxResyncStep (out : List PacketBuf) (packetCapacity : ℕ) (r : TsRxRun) (frame : List Bool) :
    TsRxRun :=
  let q := tsRxPush r.rx frame out packetCapacity
  if q.ret < 0 then { r with rx := tsRxReset q.rx, rets := r.rets ++ [q.ret] }
  else tsRxRunStep out packetCapacity r frame

/-- Packet `k` lies, with the packet after it, in a stretch of received frames, behind the first of
them. -/
def Covered (d : ℕ) (received : List ℕ) (k : ℕ) : Prop :=
  ∃ i l, (∀ j, i ≤ j → j ≤ l → j ∈ received) ∧ (i + 1) * d ≤ k * tsPacketBits ∧
    (k + 2) * tsPacketBits ≤ (l + 1) * d

/-- A stretch of received frames up to `a` holds no frame before `a - 1`. -/
def StretchFrom (received : List ℕ) (a : ℕ) : Prop :=
  ∀ i, i + 1 < a → ∃ j, i ≤ j ∧ j < a ∧ j ∉ received

/-- A receiver that joined at frame `a` and has taken every frame up to `e - 1`. -/
structure JoinedAt (bb : BbFrameCtx) (p : ℕ → TsPacket) (received out : List ℕ) (a e : ℕ) (rx : TsRx) :
    Prop where
  lt : a < e
  stretch : StretchFrom received a
  at_bits : RxAt bb p (joinPacket bb.dfl a) (e * bb.dfl - joinPacket bb.dfl a * tsPacketBits) rx
  below : ∀ k ∈ out, k < joinPacket bb.dfl a
    + verified (e * bb.dfl - joinPacket bb.dfl a * tsPacketBits)
  all : ∀ k, joinPacket bb.dfl a ≤ k → k < joinPacket bb.dfl a
    + verified (e * bb.dfl - joinPacket bb.dfl a * tsPacketBits) → k ∈ out

/-- What a receiver knows that has been fed the frames `received`, all below `e`, and has emitted
the packets `out`. -/
structure Heard (bb : BbFrameCtx) (p : ℕ → TsPacket) (received out : List ℕ) (e : ℕ) (rx : TsRx) :
    Prop where
  lt : ∀ j ∈ received, j < e
  ordered : out.Pairwise (· < ·)
  finished : ∀ k ∈ out, (k + 2) * tsPacketBits ≤ e * bb.dfl
  complete : ∀ k, Covered bb.dfl received k → k ∈ out
  state : ((∀ s, RxAt bb p s 0 rx) ∧ StretchFrom received e) ∨
    ∃ a, JoinedAt bb p received out a e rx

theorem Heard.kBch_eq {bb : BbFrameCtx} {p : ℕ → TsPacket} {received out : List ℕ} {e : ℕ} {rx : TsRx}
    (h : Heard bb p received out e rx) : rx.bb.kBch = bb.kBch := by
  rcases h.state with ⟨hfresh, -⟩ | ⟨a, hjoined⟩
  · exact (hfresh 0).kBch_eq
  · exact hjoined.at_bits.kBch_eq

/-! ### One frame -/

/-- A packet that the last frame covers, or one that the frames before do. -/
theorem covered_concat {d j k : ℕ} {received : List ℕ} (hlt : ∀ i ∈ received, i < j)
    (h : Covered d (received ++ [j]) k) :
    Covered d received k ∨ ∃ i, (∀ x, i ≤ x → x < j → x ∈ received) ∧
      (i + 1) * d ≤ k * tsPacketBits ∧ (k + 2) * tsPacketBits ≤ (j + 1) * d := by
  obtain ⟨i, l, hall, hlow, hhigh⟩ := h
  have hil : i < l + 1 := by
    by_contra hge
    have hmul := Nat.mul_le_mul_right d (not_lt.mp hge)
    have hpos : (k + 2) * tsPacketBits = k * tsPacketBits + 2 * tsPacketBits := Nat.add_mul _ _ _
    have hd : (i + 1) * d = i * d + d := Nat.succ_mul _ _
    have : 0 < tsPacketBits := by decide
    omega
  have hl : l ∈ received ++ [j] := hall l (by omega) le_rfl
  have hmem : ∀ x, x ∈ received ++ [j] → x ≠ j → x ∈ received := by
    intro x hx hne
    rcases List.mem_append.mp hx with h | h
    · exact h
    · exact absurd (List.mem_singleton.mp h) hne
  rcases List.mem_append.mp hl with h | h
  · have hlj := hlt l h
    exact .inl ⟨i, l, fun x hix hxl => hmem x (hall x hix hxl) (by omega), hlow, hhigh⟩
  · obtain rfl := List.mem_singleton.mp h
    exact .inr ⟨i, fun x hix hxl => hmem x (hall x hix hxl.le) hxl.ne, hlow, hhigh⟩

theorem StretchFrom.concat {received : List ℕ} {a j : ℕ} (h : StretchFrom received a) (haj : a ≤ j) :
    StretchFrom (received ++ [j]) a := by
  intro i hi
  obtain ⟨x, hix, hxa, hx⟩ := h i hi
  refine ⟨x, hix, hxa, fun hmem => ?_⟩
  rcases List.mem_append.mp hmem with h | h
  · exact hx h
  · have := List.mem_singleton.mp h
    omega

/-- Where a stretch can start behind a gap. -/
theorem stretchFrom_gap {received : List ℕ} {e j : ℕ} (hlt : ∀ i ∈ received, i < e) (hej : e < j) :
    StretchFrom received j := by
  intro i hi
  refine ⟨j - 1, by omega, by omega, fun hmem => ?_⟩
  have := hlt _ hmem
  omega

section Push
variable {bb : BbFrameCtx} {p : ℕ → TsPacket} {received out : List ℕ} {a e j : ℕ} {rx : TsRx}

/-- A frame that is taken. -/
theorem Heard.taken (h : Heard bb p received out e rx) (hej : e ≤ j) {s b b' : ℕ}
    (hs : s = joinPacket bb.dfl a) (haj : a ≤ j) (hstretch : StretchFrom received a)
    (hbelow : ∀ k ∈ out, k < s + verified b) (hall : ∀ k, s ≤ k → k < s + verified b → k ∈ out)
    (hb : b ≤ b') (hb' : s * tsPacketBits + b' = (j + 1) * bb.dfl) {rx' : TsRx}
    (hrx : RxAt bb p s b' rx') :
    Heard bb p (received ++ [j])
      (out ++ List.range' (s + verified b) (verified b' - verified b)) (j + 1) rx' := by
  have hbits : tsPacketBits = 1504 := rfl
  have hmono : verified b ≤ verified b' := verified_mono hb
  have hverified : verified b' = b' / 1504 - 1 := rfl
  have hjoin := joinPacket_mul bb.dfl a
  have hsync := syncdAt_lt bb.dfl a
  rw [← hs] at hjoin
  have hnew : ∀ k, k ∈ List.range' (s + verified b) (verified b' - verified b)
      ↔ s + verified b ≤ k ∧ k < s + verified b' := by
    intro k
    rw [List.mem_range'_1]
    omega
  have hb'eq : (j + 1) * bb.dfl - s * tsPacketBits = b' := by omega
  have hej' : e * bb.dfl ≤ (j + 1) * bb.dfl := Nat.mul_le_mul_right _ (by omega)
  refine ⟨fun i hi => ?_, ?_, fun k hk => ?_, fun k hk => ?_, .inr ⟨a, by omega, hstretch.concat haj,
    ?_, fun k hk => ?_, fun k hlow hhigh => ?_⟩⟩
  · rcases List.mem_append.mp hi with hi | hi
    · have := h.lt i hi
      omega
    · have := List.mem_singleton.mp hi
      omega
  · refine List.pairwise_append.mpr ⟨h.ordered, List.pairwise_lt_range', fun k hk k' hk' => ?_⟩
    have h₁ := hbelow k hk
    have h₂ := (hnew k').mp hk'
    omega
  · rcases List.mem_append.mp hk with hk | hk
    · exact (h.finished k hk).trans hej'
    · have hk' := (hnew k).mp hk
      rw [← hb', hbits]
      omega
  · rcases covered_concat (fun i hi => (h.lt i hi).trans_le hej) hk with hold | ⟨i, hrun, hlow, hhigh⟩
    · exact List.mem_append_left _ (h.complete k hold)
    · -- the stretch starts at the join or one frame before
      have hia : a ≤ i + 1 := by
        by_contra hlt
        obtain ⟨x, hix, hxa, hx⟩ := hstretch i (by omega)
        exact hx (hrun x hix (by omega))
      have hstart : a * bb.dfl ≤ (i + 1) * bb.dfl := Nat.mul_le_mul_right _ hia
      have hks : s ≤ k := by
        rw [hbits] at hjoin hsync hlow
        omega
      have hkb : k < s + verified b' := by
        rw [← hb', hbits] at hhigh
        omega
      by_cases hold : k < s + verified b
      · exact List.mem_append_left _ (hall k hks hold)
      · exact List.mem_append_right _ ((hnew k).mpr ⟨by omega, hkb⟩)
  · rw [← hs, hb'eq]
    exact hrx
  · rw [← hs, hb'eq]
    rcases List.mem_append.mp hk with hk | hk
    · exact (hbelow k hk).trans_le (by omega)
    · exact ((hnew k).mp hk).2
  · rw [← hs] at hlow hhigh
    rw [hb'eq] at hhigh
    by_cases hold : k < s + verified b
    · exact List.mem_append_left _ (hall k hlow hold)
    · exact List.mem_append_right _ ((hnew k).mpr ⟨by omega, hhigh⟩)

/-- A frame that is spent on a gap. -/
theorem Heard.spent (h : Heard bb p received out e rx) (hej : e < j) {rx' : TsRx}
    (hrx : ∀ s, RxAt bb p s 0 rx') : Heard bb p (received ++ [j]) out (j + 1) rx' := by
  have hbits : tsPacketBits = 1504 := rfl
  have hgap := stretchFrom_gap h.lt hej
  have hej' : e * bb.dfl ≤ (j + 1) * bb.dfl := Nat.mul_le_mul_right _ (by omega)
  refine ⟨fun i hi => ?_, h.ordered, fun k hk => (h.finished k hk).trans hej', fun k hk => ?_,
    .inl ⟨hrx, fun i hi => ?_⟩⟩
  · rcases List.mem_append.mp hi with hi | hi
    · have := h.lt i hi
      omega
    · have := List.mem_singleton.mp hi
      omega
  · rcases covered_concat (fun i hi => (h.lt i hi).trans hej) hk with hold | ⟨i, hrun, hlow, hhigh⟩
    · exact h.complete k hold
    · -- no packet lies behind this frame and before its end
      have hij : j ≤ i := by
        by_contra hlt
        have := h.lt _ (hrun (j - 1) (by omega) (by omega))
        omega
      have hmul : (j + 1) * bb.dfl ≤ (i + 1) * bb.dfl := Nat.mul_le_mul_right _ (by omega)
      rw [hbits] at hlow hhigh
      omega
  · refine ⟨j - 1, by omega, by omega, fun hmem => ?_⟩
    rcases List.mem_append.mp hmem with hi | hi
    · have := h.lt _ hi
      omega
    · have := List.mem_singleton.mp hi
      omega

/-- A receiver that has joined has bits. -/
theorem JoinedAt.bits (hbb : bb.Valid) (h : JoinedAt bb p received out a e rx) :
    joinPacket bb.dfl a * tsPacketBits < e * bb.dfl := by
  have hjoin := joinPacket_mul bb.dfl a
  have hsync := syncdAt_lt bb.dfl a
  have hlt := hbb.packet_lt
  have hmul : (a + 1) * bb.dfl ≤ e * bb.dfl := Nat.mul_le_mul_right _ h.lt
  have hsucc : (a + 1) * bb.dfl = a * bb.dfl + bb.dfl := Nat.succ_mul _ _
  omega

/-- **One frame.**  It is taken, or spent on the gap before it. -/
theorem Heard.push (hbb : bb.Valid) (h : Heard bb p received out e rx) (hej : e ≤ j)
    (hgap : j = e ∨ ¬tsPacketBits ∣ (j - e) * bb.dfl) {frame : List Bool}
    (hframe : frame.take bb.kBch = frameAt bb p j) (buf : List PacketBuf) {packetCapacity : ℕ}
    (hcap : (bb.dfl + (tsPacketBits - 1)) / tsPacketBits ≤ packetCapacity) {r : TsRxRun}
    (hrx : r.rx = rx) (hpackets : r.packets = out.map fun k => (p k).bytes) :
    let r' := tsRxResyncStep buf packetCapacity r frame
    ∃ out', Heard bb p (received ++ [j]) out' (j + 1) r'.rx ∧
      (r'.packets = out'.map fun k => (p k).bytes) ∧
      ∃ ret, (ret = ok ∨ ret = errNosync) ∧ r'.rets = r.rets ++ [ret] := by
  subst hrx
  intro r'
  -- a push that goes through
  have htaken : ∀ (a s b start : ℕ), s = joinPacket bb.dfl a → a ≤ j → StretchFrom received a →
      (∀ k ∈ out, k < s + verified b) → (∀ k, s ≤ k → k < s + verified b → k ∈ out) →
      RxAt bb p s b r.rx → j * bb.dfl + start = s * tsPacketBits + b →
      (if b = 0 then start = syncdAt bb.dfl j else start = 0) →
      ∃ out', Heard bb p (received ++ [j]) out' (j + 1) r'.rx ∧
        (r'.packets = out'.map fun k => (p k).bytes) ∧
        ∃ ret, (ret = ok ∨ ret = errNosync) ∧ r'.rets = r.rets ++ [ret] := by
    intro a s b start hs haj hstretch hbelow hall hat hpos hstart
    have hle : start ≤ bb.dfl := by
      have hsync := syncdAt_lt bb.dfl j
      have hlt := hbb.packet_lt
      split at hstart <;> omega
    have hsucc : (j + 1) * bb.dfl = j * bb.dfl + bb.dfl := Nat.succ_mul _ _
    obtain ⟨hret, hat', hout⟩ := tsRxPush_spec hbb hat start hpos hstart frame hframe buf
      packetCapacity hcap
    have hstep : r' = tsRxRunStep buf packetCapacity r frame := by
      show tsRxResyncStep buf packetCapacity r frame = _
      rw [tsRxResyncStep, hret]
      exact if_neg (lt_irrefl 0)
    rw [hstep]
    refine ⟨_, h.taken hej hs haj hstretch hbelow hall (Nat.le_add_right b _) (by omega) hat', ?_,
      ok, .inl rfl, ?_⟩
    · rw [tsRxRunStep]
      dsimp only
      rw [hout, hpackets, List.map_append, packetsFrom, List.range'_eq_map_range, List.map_map]
      rfl
    · rw [tsRxRunStep]
      dsimp only
      rw [hret]
  rcases h.state with ⟨hfresh, hstretch⟩ | ⟨a, hjoined⟩
  · -- a receiver that has nothing joins here
    have hjoin := joinPacket_mul bb.dfl j
    have hsync := syncdAt_lt bb.dfl j
    refine htaken j (joinPacket bb.dfl j) 0 (syncdAt bb.dfl j) rfl le_rfl ?_ (fun k hk => ?_)
      (fun k hlow hhigh => absurd hhigh (not_lt.mpr hlow)) (hfresh _) (by omega) (by rw [if_pos rfl])
    · rcases Nat.eq_or_lt_of_le hej with rfl | hlt
      · exact hstretch
      · exact stretchFrom_gap h.lt hlt
    · have hfinished := h.finished k hk
      have hmul : e * bb.dfl ≤ j * bb.dfl := Nat.mul_le_mul_right _ hej
      have hbits : tsPacketBits = 1504 := rfl
      show k < joinPacket bb.dfl j + 0
      rw [hbits] at hjoin hfinished
      omega
  · have hbits := hjoined.bits hbb
    rcases Nat.eq_or_lt_of_le hej with rfl | hlt
    · exact htaken a _ _ 0 rfl hjoined.lt.le hjoined.stretch hjoined.below hjoined.all
        hjoined.at_bits (by omega) (by rw [if_neg (by omega)])
    · have hpush := tsRxPush_gap hbb hjoined.at_bits (by omega) (by omega) hej
        (hgap.resolve_left hlt.ne') hframe buf packetCapacity
      have hstep : r' = { r with rx := tsRxReset r.rx, rets := r.rets ++ [errNosync] } := by
        show tsRxResyncStep buf packetCapacity r frame = _
        rw [tsRxResyncStep, hpush]
        exact if_pos (show errNosync < 0 by decide)
      rw [hstep]
      exact ⟨out, h.spent hlt fun s => rxAt_reset p s r.rx hjoined.at_bits.kBch_eq
        hjoined.at_bits.dfl_eq, hpackets, errNosync, .inr rfl, rfl⟩

end Push

/-! ### The beginning and the end -/

/-- A fresh receiver has heard nothing, up to whatever frame comes first. -/
theorem heard_fresh {bb : BbFrameCtx} (p : ℕ → TsPacket) (e : ℕ) {rx : TsRx}
    (hrx : ∀ s, RxAt bb p s 0 rx) : Heard bb p [] [] e rx := by
  refine ⟨fun j hj => absurd hj List.not_mem_nil, .nil, fun k hk => absurd hk List.not_mem_nil,
    fun k hk => ?_, .inl ⟨hrx, fun i hi => ⟨i, le_rfl, by omega, List.not_mem_nil⟩⟩⟩
  obtain ⟨i, l, hall, hlow, hhigh⟩ := hk
  have hil : i ≤ l := by
    by_contra hgt
    have hmul := Nat.mul_le_mul_right bb.dfl (show l + 1 ≤ i + 1 by omega)
    have hbits : tsPacketBits = 1504 := rfl
    rw [hbits] at hlow hhigh
    omega
  exact absurd (hall i le_rfl hil) List.not_mem_nil

/-- What is handed out at the end is the packet behind those that have come out. -/
theorem Heard.finalize {bb : BbFrameCtx} {p : ℕ → TsPacket} {received out : List ℕ} {e : ℕ} {rx : TsRx}
    (h : Heard bb p received out e rx) (buf : List PacketBuf) :
    let q := tsRxFinalizeUnchecked rx buf 1
    q.ret = ok ∧ ∃ last : List ℕ, (q.packets.take q.packetCount = last.map fun k => (p k).bytes) ∧
      (out ++ last).Pairwise (· < ·) := by
  intro q
  rcases h.state with ⟨hfresh, -⟩ | ⟨a, hjoined⟩
  · obtain ⟨hret, hlast⟩ := tsRxFinalize_spec (hfresh 0) buf
    refine ⟨hret, [], ?_, by rw [List.append_nil]; exact h.ordered⟩
    exact (List.append_eq_nil_iff.mp hlast).2
  · obtain ⟨hret, hlast⟩ := tsRxFinalize_spec hjoined.at_bits buf
    set s := joinPacket bb.dfl a
    set b := e * bb.dfl - s * tsPacketBits
    have hverified : verified b ≤ b / tsPacketBits := Nat.sub_le _ _
    refine ⟨hret, List.range' (s + verified b) (b / tsPacketBits - verified b), ?_, ?_⟩
    · have hsplit := packetsFrom_append p s (verified b) (b / tsPacketBits - verified b)
      rw [Nat.add_sub_cancel' hverified, ← hlast] at hsplit
      rw [← List.append_cancel_left hsplit, packetsFrom, List.range'_eq_map_range, List.map_map]
      rfl
    · refine List.pairwise_append.mpr ⟨h.ordered, List.pairwise_lt_range', fun k hk k' hk' => ?_⟩
      have h₁ := hjoined.below k hk
      exact h₁.trans_le (List.mem_range'_1.mp hk').1

theorem gap_shows : ∀ mc ∈ vlsnrModcodTable, ∀ lost < 47, lost ≠ 0 →
    ¬tsPacketBits ∣ lost * (mc.kBch - bbHeaderBits) := by decide

/-- **Up to 46 frames lost in a row** do not go unnoticed. -/
theorem follows_of_few {mc : Modcod} (hmc : mc ∈ vlsnrModcodTable) {i j : ℕ} (hij : i < j)
    (hfew : j ≤ i + 47) : Follows (mc.kBch - bbHeaderBits) i j := by
  refine ⟨hij, ?_⟩
  rcases Nat.eq_or_lt_of_le (Nat.succ_le_of_lt hij) with hnext | hlost
  · exact .inl hnext.symm
  · exact .inr (gap_shows mc hmc (j - (i + 1)) (by omega) (by omega))

end OpenVlsnr
