import OpenVlsnr.TsRoundTrip

/-!
# Errors of the transport-stream adaptation are atomic (`bb_frame.c`)

`dvbs2x_ts_rx_push` predicts the number of packets of a frame before it parses it, and parses into
local copies.  What a frame leads to is settled by the receiver's state and the frame alone
(`TsRxFate`); the capacity only decides whether the call stops at the prediction.

* `tsRxPushBits_count` - the loop emits what has been predicted;
* `tsRxPush_fate` - all that a call can do;
* `tsAdaptation_atomic` - negative codes change nothing, and capacity reports are exact.
-/

namespace OpenVlsnr

/-! ### Counting packets -/

/-- The packets handed out when `ends` packets are completed: each but the first one held. -/
def emitted (havePrevious : Bool) (ends : ℕ) : ℕ :=
  if havePrevious then ends else ends - 1

theorem emitted_zero (havePrevious : Bool) : emitted havePrevious 0 = 0 := by
  cases havePrevious <;> rfl

theorem emitted_succ (havePrevious : Bool) (ends : ℕ) :
    emitted havePrevious (ends + 1) = havePrevious.toNat + emitted true ends := by
  cases havePrevious
  · exact (Nat.zero_add ends).symm
  · exact Nat.add_comm ends 1

theorem tsRxNeeded_eq (rx : TsRx) (dfl start : ℕ) :
    tsRxNeeded rx dfl start
      = emitted rx.havePrevious ((rx.packetBits + dfl - start) / tsPacketBits) := by
  unfold tsRxNeeded emitted
  dsimp only
  cases rx.havePrevious with
  | true => simp
  | false =>
    simp only [true_and, Bool.false_eq_true, if_false]
    split_ifs <;> omega

/-! ### The loop -/

theorem tsRxPacketEnd_error {s : TsRxLoop} {e : ℤ} (h : tsRxPacketEnd s = .error e) :
    e = errCrc := by
  unfold tsRxPacketEnd at h
  dsimp only at h
  split_ifs at h
  exact (Except.error.inj h).symm

theorem tsRxPacketEnd_ok {s s' : TsRxLoop} (h : tsRxPacketEnd s = .ok s') :
    s'.packetBits = 0 ∧ s'.havePrevious = true ∧
      s'.output.length = s.output.length + s.havePrevious.toNat := by
  unfold tsRxPacketEnd at h
  dsimp only at h
  split_ifs at h
  · obtain rfl := Except.ok.inj h
    refine ⟨rfl, rfl, ?_⟩
    rename_i hhave
    simp [hhave]
  · obtain rfl := Except.ok.inj h
    refine ⟨rfl, rfl, ?_⟩
    rename_i hhave
    simp [hhave]

/-- One bit completes a packet or does not. -/
theorem tsRxPushBit_ok {s s' : TsRxLoop} {x : Bool} (h : tsRxPushBit s x = .ok s') :
    (s.packetBits + 1 ≠ tsPacketBits ∧ s'.packetBits = s.packetBits + 1 ∧
        s'.havePrevious = s.havePrevious ∧ s'.output = s.output) ∨
      (s.packetBits + 1 = tsPacketBits ∧ s'.packetBits = 0 ∧ s'.havePrevious = true ∧
        s'.output.length = s.output.length + s.havePrevious.toNat) := by
  unfold tsRxPushBit at h
  dsimp only at h
  split_ifs at h with hend
  · obtain rfl := Except.ok.inj h
    exact Or.inl ⟨hend, rfl, rfl, rfl⟩
  · obtain ⟨hbits, hhave, hout⟩ := tsRxPacketEnd_ok h
    exact Or.inr ⟨not_not.mp hend, hbits, hhave, hout⟩

theorem tsRxPushBit_error {s : TsRxLoop} {x : Bool} {e : ℤ} (h : tsRxPushBit s x = .error e) :
    e = errCrc := by
  unfold tsRxPushBit at h
  dsimp only at h
  split_ifs at h
  exact tsRxPacketEnd_error h

/-- **The loop emits what has been predicted**, by induction on the bits: a whole number of
packets is completed, and each completed one hands out the one before it. -/
theorem tsRxPushBits_count (bits : List Bool) (s s' : TsRxLoop)
    (hbits : s.packetBits < tsPacketBits) (h : bits.foldlM tsRxPushBit s = .ok s') :
    s'.packetBits < tsPacketBits ∧ s'.output.length = s.output.length
      + emitted s.havePrevious ((s.packetBits + bits.length) / tsPacketBits) := by
  induction bits generalizing s with
  | nil =>
    obtain rfl : s = s' := Except.ok.inj h
    exact ⟨hbits, by simp [Nat.div_eq_of_lt hbits, emitted_zero]⟩
  | cons x xs ih =>
    rw [List.foldlM_cons] at h
    cases hstep : tsRxPushBit s x with
    | error e =>
      rw [hstep] at h
      cases h
    | ok s₁ =>
      rw [hstep] at h
      obtain ⟨hend, hpb, hhave, hout⟩ | ⟨hend, hpb, hhave, hout⟩ := tsRxPushBit_ok hstep
      · obtain ⟨hlt, hlen⟩ := ih s₁ (by omega) h
        refine ⟨hlt, ?_⟩
        rw [hlen, hout, hhave, hpb, List.length_cons, Nat.add_right_comm, Nat.add_assoc]
      · obtain ⟨hlt, hlen⟩ := ih s₁ (by rw [hpb]; decide) h
        refine ⟨hlt, ?_⟩
        have htotal : s.packetBits + (x :: xs).length = xs.length + tsPacketBits := by
          rw [List.length_cons]
          omega
        rw [hlen, hout, hhave, hpb, htotal, Nat.add_div_right _ (by decide), emitted_succ,
          Nat.zero_add, Nat.add_assoc]

theorem tsRxPushBits_error (bits : List Bool) (s : TsRxLoop) {e : ℤ}
    (h : bits.foldlM tsRxPushBit s = .error e) : e = errCrc := by
  induction bits generalizing s with
  | nil => cases h
  | cons x xs ih =>
    rw [List.foldlM_cons] at h
    cases hstep : tsRxPushBit s x with
    | error e' =>
      rw [hstep] at h
      obtain rfl : e' = e := Except.error.inj h
      exact tsRxPushBit_error hstep
    | ok s₁ =>
      rw [hstep] at h
      exact ih s₁ h

/-! ### A call -/

theorem bbHeaderRead_error {ctx : BbFrameCtx} {bbframe : List Bool} {e : ℤ}
    (h : bbHeaderRead ctx bbframe = .error e) : e = errParam ∨ e = errCrc := by
  unfold bbHeaderRead at h
  dsimp only at h
  split_ifs at h
  · exact Or.inl (Except.error.inj h).symm
  · exact Or.inr (Except.error.inj h).symm

theorem bbHeaderRead_length {ctx : BbFrameCtx} {bbframe descrambled : List Bool}
    {header : BbHeader} (h : bbHeaderRead ctx bbframe = .ok (descrambled, header)) :
    descrambled.length = min ctx.kBch bbframe.length := by
  unfold bbHeaderRead at h
  dsimp only at h
  split_ifs at h
  obtain ⟨rfl, -⟩ := Prod.mk.inj (Except.ok.inj h)
  simp [bbScramble, bbScrambleFrom_length]

theorem tsRxStart_error {rx : TsRx} {header : BbHeader} {e : ℤ}
    (h : tsRxStart rx header = .error e) : e = errParam ∨ e = errNosync := by
  unfold tsRxStart at h
  split_ifs at h
  · exact Or.inl (Except.error.inj h).symm
  all_goals exact Or.inr (Except.error.inj h).symm

/-- An accepted frame starts within its data field, and that fits in the frame. -/
theorem tsRxStart_ok {rx : TsRx} {header : BbHeader} {start : ℕ}
    (h : tsRxStart rx header = .ok start) : start ≤ header.dfl ∧ header.dfl ≤ rx.bb.dfl := by
  unfold tsRxStart at h
  split_ifs at h with haccept hfresh hsyncd
  all_goals
    obtain rfl := Except.ok.inj h
    push Not at haccept
    refine ⟨by omega, haccept.2.2.2.2⟩

/-- What a frame leads to, whatever the buffer: it is rejected, or `n` packets are predicted, and
with room for them the CRC of one fails or all of them are emitted. -/
inductive TsRxFate (rx : TsRx) (bbframe : List Bool) : Prop
  | rejected (e : ℤ) (he : e = errParam ∨ e = errCrc ∨ e = errNosync)
      (hall : ∀ packets capacity, tsRxPush rx bbframe packets capacity = ⟨e, rx, packets, 0⟩) :
      TsRxFate rx bbframe
  | broken (n : ℕ)
      (hshort : ∀ packets capacity, capacity < n →
        tsRxPush rx bbframe packets capacity = ⟨errShort, rx, packets, n⟩)
      (hroom : ∀ packets capacity, n ≤ capacity →
        tsRxPush rx bbframe packets capacity = ⟨errCrc, rx, packets, 0⟩) : TsRxFate rx bbframe
  | emits (n : ℕ) (rx' : TsRx) (output : List PacketBuf)
      (hshort : ∀ packets capacity, capacity < n →
        tsRxPush rx bbframe packets capacity = ⟨errShort, rx, packets, n⟩)
      (hroom : ∀ packets capacity, n ≤ capacity → tsRxPush rx bbframe packets capacity
        = ⟨ok, rx', memcpyAt packets 0 output, output.length⟩)
      (hbb : rx'.bb = rx.bb) (hbits : rx'.packetBits < tsPacketBits)
      (hcount : rx.bb.dfl + bbHeaderBits ≤ min rx.bb.kBch bbframe.length → output.length = n) :
      TsRxFate rx bbframe

theorem tsRxPush_fate (rx : TsRx) (bbframe : List Bool) (hpb : rx.packetBits < tsPacketBits) :
    TsRxFate rx bbframe := by
  cases hread : bbHeaderRead rx.bb bbframe with
  | error e =>
    refine .rejected e ((bbHeaderRead_error hread).imp_right Or.inl) fun packets capacity => ?_
    rw [tsRxPush, hread]
  | ok r =>
    obtain ⟨descrambled, header⟩ := r
    cases hstart : tsRxStart rx header with
    | error e =>
      refine .rejected e ((tsRxStart_error hstart).imp_right Or.inr) fun packets capacity => ?_
      rw [tsRxPush, hread]
      dsimp only
      rw [hstart]
    | ok start =>
      have hpush := fun packets capacity => tsRxPush_of_start packets capacity hread hstart
      dsimp only at hpush
      have hshort : ∀ packets capacity, capacity < tsRxNeeded rx header.dfl start →
          tsRxPush rx bbframe packets capacity
            = ⟨errShort, rx, packets, tsRxNeeded rx header.dfl start⟩ :=
        fun packets capacity hlt => (hpush packets capacity).trans (if_pos hlt)
      generalize hfield :
        (descrambled.drop (bbHeaderBits + start)).take (header.dfl - start) = bits at hpush
      cases hloop : bits.foldlM tsRxPushBit
          ⟨rx.packet, rx.previous, rx.packetBits, rx.havePrevious, []⟩ with
      | error e =>
        obtain rfl := tsRxPushBits_error _ _ hloop
        refine .broken _ hshort fun packets capacity hle => ?_
        rw [hpush, if_neg (not_lt.mpr hle), hloop]
      | ok s =>
        obtain ⟨hlt, hlen⟩ := tsRxPushBits_count _ _ _ hpb hloop
        have hroom : ∀ packets capacity, tsRxNeeded rx header.dfl start ≤ capacity →
            tsRxPush rx bbframe packets capacity
              = ⟨ok, ⟨rx.bb, s.packet, s.previous, s.packetBits, s.havePrevious⟩,
                memcpyAt packets 0 s.output, s.output.length⟩ := by
          intro packets capacity hle
          rw [hpush, if_neg (not_lt.mpr hle), hloop]
        refine .emits _ _ s.output hshort hroom rfl hlt fun hfits => ?_
        obtain ⟨hle, hdfl⟩ := tsRxStart_ok hstart
        have hlong := bbHeaderRead_length hread
        have hbits : bits.length = header.dfl - start := by
          rw [← hfield, List.length_take, List.length_drop]
          omega
        rw [hlen, tsRxNeeded_eq, hbits, List.length_nil, Nat.zero_add, Nat.add_sub_assoc hle]

/-! ### Histories of a receiver -/

/-- The calls on a receiver. -/
inductive TsRxOp where
  | push (bbframe : List Bool) (packets : List PacketBuf) (packetCapacity : ℕ)
  | reset
  | finalize (packet : List PacketBuf) (packetCapacity : ℕ)

def tsRxStep (rx : TsRx) : TsRxOp → TsRx
  | .push bbframe packets packetCapacity => (tsRxPush rx bbframe packets packetCapacity).rx
  | .reset => tsRxReset rx
  | .finalize packet packetCapacity => (tsRxFinalizeUnchecked rx packet packetCapacity).rx

def tsRxOps (rx : TsRx) (ops : List TsRxOp) : TsRx :=
  ops.foldl tsRxStep rx

theorem tsRxFinalize_rx (rx : TsRx) (packet : List PacketBuf) (packetCapacity : ℕ) :
    (tsRxFinalizeUnchecked rx packet packetCapacity).rx = rx ∨
      (tsRxFinalizeUnchecked rx packet packetCapacity).rx = tsRxReset rx := by
  unfold tsRxFinalizeUnchecked
  split_ifs
  · exact Or.inl rfl
  all_goals exact Or.inr rfl

/-- The context stays, and a packet is never complete between calls. -/
structure TsRxInv (bb : BbFrameCtx) (rx : TsRx) : Prop where
  bb_eq : rx.bb = bb
  bits_lt : rx.packetBits < tsPacketBits

theorem TsRxInv.init (modcod : Modcod) : TsRxInv (tsRxInit modcod).bb (tsRxInit modcod) :=
  ⟨rfl, show 0 < tsPacketBits by decide⟩

theorem TsRxInv.reset {bb : BbFrameCtx} {rx : TsRx} (h : TsRxInv bb rx) :
    TsRxInv bb (tsRxReset rx) :=
  ⟨h.bb_eq, show 0 < tsPacketBits by decide⟩

theorem TsRxInv.push {bb : BbFrameCtx} {rx : TsRx} (h : TsRxInv bb rx) (bbframe : List Bool)
    (packets : List PacketBuf) (capacity : ℕ) :
    TsRxInv bb (tsRxPush rx bbframe packets capacity).rx := by
  cases tsRxPush_fate rx bbframe h.bits_lt with
  | rejected e he hall =>
    rw [hall]
    exact h
  | broken n hshort hroom =>
    obtain hlt | hle := lt_or_ge capacity n
    · rw [hshort _ _ hlt]
      exact h
    · rw [hroom _ _ hle]
      exact h
  | emits n rx' output hshort hroom hbb hbits hcount =>
    obtain hlt | hle := lt_or_ge capacity n
    · rw [hshort _ _ hlt]
      exact h
    · rw [hroom _ _ hle]
      exact ⟨hbb.trans h.bb_eq, hbits⟩

theorem TsRxInv.step {bb : BbFrameCtx} {rx : TsRx} (h : TsRxInv bb rx) (op : TsRxOp) :
    TsRxInv bb (tsRxStep rx op) := by
  cases op with
  | push bbframe packets packetCapacity => exact h.push bbframe packets packetCapacity
  | reset => exact h.reset
  | finalize packet packetCapacity =>
    show TsRxInv bb (tsRxFinalizeUnchecked rx packet packetCapacity).rx
    rcases tsRxFinalize_rx rx packet packetCapacity with hrx | hrx
    · rw [hrx]
      exact h
    · rw [hrx]
      exact h.reset

theorem TsRxInv.run {bb : BbFrameCtx} {rx : TsRx} (h : TsRxInv bb rx) (ops : List TsRxOp) :
    TsRxInv bb (tsRxOps rx ops) := by
  induction ops generalizing rx with
  | nil => exact h
  | cons op ops ih => exact ih (h.step op)

/-! ### Atomicity -/

/-- A negative code leaves the receiver and the packets alone. -/
theorem TsRxFate.unchanged {rx : TsRx} {bbframe : List Bool} (h : TsRxFate rx bbframe)
    (packets : List PacketBuf) (capacity : ℕ)
    (hret : (tsRxPush rx bbframe packets capacity).ret < 0) :
    (tsRxPush rx bbframe packets capacity).rx = rx ∧
      (tsRxPush rx bbframe packets capacity).packets = packets := by
  cases h with
  | rejected e he hall =>
    rw [hall]
    exact ⟨rfl, rfl⟩
  | broken n hshort hroom =>
    obtain hlt | hle := lt_or_ge capacity n
    · rw [hshort _ _ hlt]
      exact ⟨rfl, rfl⟩
    · rw [hroom _ _ hle]
      exact ⟨rfl, rfl⟩
  | emits n rx' output hshort hroom hbb hbits hcount =>
    obtain hlt | hle := lt_or_ge capacity n
    · rw [hshort _ _ hlt]
      exact ⟨rfl, rfl⟩
    · rw [hroom _ _ hle] at hret
      exact absurd hret (lt_irrefl _)

/-- What `n` packets of room do, for the `n` that a `SHORT` call reports. -/
structure ExactRoom (rx : TsRx) (bbframe : List Bool) (n : ℕ) : Prop where
  not_short : ∀ packets, (tsRxPush rx bbframe packets n).ret ≠ errShort
  emits : ∀ packets, (tsRxPush rx bbframe packets n).ret = 0 →
    (tsRxPush rx bbframe packets n).packetCount = n ∧ ∃ output : List PacketBuf,
      output.length = n ∧
        (tsRxPush rx bbframe packets n).packets = memcpyAt packets 0 output

theorem ExactRoom.of_not_ok {rx : TsRx} {bbframe : List Bool} {n : ℕ}
    (hshort : ∀ packets, (tsRxPush rx bbframe packets n).ret ≠ errShort)
    (hret : ∀ packets, (tsRxPush rx bbframe packets n).ret ≠ 0) : ExactRoom rx bbframe n :=
  ⟨hshort, fun packets h => absurd h (hret packets)⟩

theorem TsRxFate.short {rx : TsRx} {bbframe : List Bool} (h : TsRxFate rx bbframe)
    (hframe : rx.bb.dfl + bbHeaderBits ≤ min rx.bb.kBch bbframe.length)
    (packets : List PacketBuf) (capacity : ℕ)
    (hret : (tsRxPush rx bbframe packets capacity).ret = errShort) :
    capacity < (tsRxPush rx bbframe packets capacity).packetCount ∧
      ExactRoom rx bbframe (tsRxPush rx bbframe packets capacity).packetCount := by
  cases h with
  | rejected e he hall =>
    rw [hall] at hret
    obtain rfl : e = errShort := hret
    exact absurd he (by decide)
  | broken n hshort hroom =>
    obtain hlt | hle := lt_or_ge capacity n
    · rw [hshort _ _ hlt]
      have hbroken : ∀ packets, (tsRxPush rx bbframe packets n).ret = errCrc := fun packets => by
        rw [hroom packets n le_rfl]
      refine ⟨hlt, .of_not_ok (fun packets => ?_) fun packets => ?_⟩
      · rw [hbroken]
        decide
      · rw [hbroken]
        decide
    · rw [hroom _ _ hle] at hret
      exact absurd (show errCrc = errShort from hret) (by decide)
  | emits n rx' output hshort hroom hbb hbits hcount =>
    obtain hlt | hle := lt_or_ge capacity n
    · rw [hshort _ _ hlt]
      refine ⟨hlt, fun packets => ?_, fun packets _ => ?_⟩
      · rw [hroom packets n le_rfl]
        exact show ok ≠ errShort by decide
      · rw [hroom packets n le_rfl]
        exact ⟨hcount hframe, output, hcount hframe, rfl⟩
    · rw [hroom _ _ hle] at hret
      exact absurd (show ok = errShort from hret) (by decide)

/-- A transmitter that refuses a packet has not touched anything. -/
theorem tsTxPush_unchanged (tx : TsTx) (packet : PacketBuf) (bbframe : List Bool)
    (frameCapacity : ℕ) (hret : (tsTxPush tx packet bbframe frameCapacity).1 < 0) :
    (tsTxPush tx packet bbframe frameCapacity).2.tx = tx ∧
      (tsTxPush tx packet bbframe frameCapacity).2.bbframe = bbframe := by
  unfold tsTxPush at hret ⊢
  split_ifs at hret ⊢ with hsync hroom
  · exact ⟨rfl, rfl⟩
  · exact ⟨rfl, rfl⟩
  · exact absurd hret (lt_irrefl _)

/-- **Errors are atomic and capacity reports are exact.**  After any history a push that returns a
negative code changes neither the receiver nor the packets; one that returns `SHORT` reports a
count above the capacity, with which the call is not short and, if it returns 0, emits exactly that
many packets.  A transmitter's negative codes change nothing either. -/
theorem tsAdaptation_atomic {modcod : Modcod} (hmodcod : modcod ∈ vlsnrModcodTable)
    (ops : List TsRxOp) :
    let rx := tsRxOps (tsRxInit modcod) ops
    (∀ (bbframe : List Bool) (packets : List PacketBuf) (capacity : ℕ),
        modcod.kBch ≤ bbframe.length →
        let push := tsRxPush rx bbframe packets capacity
        (push.ret < 0 → push.rx = rx ∧ push.packets = packets) ∧
          (push.ret = errShort →
            capacity < push.packetCount ∧ ExactRoom rx bbframe push.packetCount)) ∧
      ∀ (tx : TsTx) (packet : PacketBuf) (bbframe : List Bool) (frameCapacity : ℕ),
        let push := tsTxPush tx packet bbframe frameCapacity
        push.1 < 0 → push.2.tx = tx ∧ push.2.bbframe = bbframe := by
  intro rx
  have hinv : TsRxInv (tsRxInit modcod).bb rx := (TsRxInv.init modcod).run ops
  refine ⟨fun bbframe packets capacity hframe => ?_, tsTxPush_unchanged⟩
  have hfate := tsRxPush_fate rx bbframe hinv.bits_lt
  have hfits : rx.bb.dfl + bbHeaderBits ≤ min rx.bb.kBch bbframe.length := by
    have hdfl : rx.bb.dfl = modcod.kBch - bbHeaderBits := by
      rw [hinv.bb_eq]
      exact tsContext_dfl hmodcod 0
    have hk : rx.bb.kBch = modcod.kBch := by
      rw [hinv.bb_eq]
      rfl
    obtain ⟨hlow, -⟩ := modcod_geometry modcod hmodcod
    rw [hdfl, hk]
    simp only [bbHeaderBits] at *
    omega
  exact ⟨hfate.unchanged packets capacity, hfate.short hfits packets capacity⟩

/-- A frame of the stream: room for fewer packets than it brings is reported, with their number. -/
theorem tsRxPush_frameAt {bb : BbFrameCtx} (hbb : bb.Valid) {p : ℕ → TsPacket} {s b j : ℕ} {rx : TsRx}
    (h : RxAt bb p s b rx) (start : ℕ) (hpos : j * bb.dfl + start = s * tsPacketBits + b)
    (hstart : if b = 0 then start = syncdAt bb.dfl j else start = 0) (packets : List PacketBuf) :
    let n := verified (b + (bb.dfl - start)) - verified b
    ∀ capacity < n, tsRxPush rx (frameAt bb p j) packets capacity = ⟨errShort, rx, packets, n⟩ := by
  intro n capacity hlt
  obtain ⟨hok, -, hout⟩ := tsRxPush_spec hbb h start hpos hstart (frameAt bb p j)
    (frameAt_take hbb p j) packets (capacity + (bb.dfl + (tsPacketBits - 1)) / tsPacketBits)
    (Nat.le_add_left _ _)
  have hpb : rx.packetBits < tsPacketBits := by
    rw [h.held.bits]
    exact Nat.mod_lt _ (by decide)
  cases tsRxPush_fate rx (frameAt bb p j) hpb with
  | rejected e he hall =>
    rw [hall] at hok
    obtain rfl : e = ok := hok
    exact absurd he (by decide)
  | broken m hshort hroom =>
    by_cases hm : capacity + (bb.dfl + (tsPacketBits - 1)) / tsPacketBits < m
    · rw [hshort _ _ hm] at hok
      exact absurd hok (show errShort ≠ ok by decide)
    · rw [hroom _ _ (not_lt.mp hm)] at hok
      exact absurd hok (show errCrc ≠ ok by decide)
  | emits m rx' output hshort hroom hbb' hbits hcount =>
    have hm : m ≤ capacity + (bb.dfl + (tsPacketBits - 1)) / tsPacketBits := by
      by_contra hm
      rw [hshort _ _ (not_le.mp hm)] at hok
      exact absurd hok (show errShort ≠ ok by decide)
    have hnum : output.length = m := by
      refine hcount ?_
      rw [h.dfl_eq, h.kBch_eq, frameAt_length hbb, min_self, Nat.add_comm]
      exact hbb.kBch_eq.ge
    rw [hroom _ _ hm] at hout
    have htake := congrArg List.length hout
    simp only [memcpyAt, packetsFrom, List.take_zero, List.nil_append, List.length_take,
      List.length_append, List.length_map, List.length_range] at htake
    obtain rfl : m = n := by omega
    exact hshort packets capacity hlt

/-- The first frame of a stream of the second MODCOD, after a reset, with room for one of its two
packets. -/
theorem tsAdaptation_atomic_short :
    let mc := vlsnrModcodTable[1]
    let rx := tsRxOps (tsRxInit mc) [.reset]
    let frame := frameAt (tsContext mc 0) (fun _ => default) 0
    let push := tsRxPush rx frame [] 1
    push.ret = errShort ∧ push.packetCount = 2 ∧ push.rx = rx ∧ push.packets = [] ∧
      ExactRoom rx frame 2 := by
  intro mc rx frame push
  have hmc : mc ∈ vlsnrModcodTable := List.getElem_mem _
  have hvalid := tsContext_valid hmc 0
  have hfresh : RxAt (tsContext mc 0) (fun _ => default) 0 0 rx :=
    rxAt_reset _ 0 (tsRxInit mc) rfl rfl
  have hdfl : (tsContext mc 0).dfl = 5580 := tsContext_dfl hmc 0
  have hpush : push = ⟨errShort, rx, [], 2⟩ := by
    have hcount : verified (0 + ((tsContext mc 0).dfl - 0)) - verified 0 = 2 := by
      rw [hdfl]
      decide
    have h := tsRxPush_frameAt (j := 0) hvalid hfresh 0 (by rw [Nat.zero_mul, Nat.zero_mul])
      (by rw [if_pos rfl, hdfl]; rfl) []
    rw [hcount] at h
    exact h 1 Nat.one_lt_two
  obtain ⟨hunchanged, hexact⟩ := (tsAdaptation_atomic hmc [.reset]).1 frame [] 1
    (frameAt_length hvalid _ 0).ge
  have hret : push.ret = errShort := by rw [hpush]
  obtain ⟨hrx, hpackets⟩ := hunchanged (hret.trans_lt (by decide))
  have hroom := (hexact hret).2
  rw [show (tsRxPush (tsRxOps (tsRxInit mc) [.reset]) frame [] 1).packetCount = 2 from
    congrArg TsRxPush.packetCount hpush] at hroom
  exact ⟨hret, by rw [hpush], hrx, hpackets, hroom⟩

end OpenVlsnr
