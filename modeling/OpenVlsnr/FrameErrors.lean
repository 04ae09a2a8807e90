import OpenVlsnr.FrameProtocol

/-!
# Damaged network frames

A frame damaged in transit, its magic and payload length intact, reaches the CRC.  There the
decoder compares the CRC of the damaged message with a damaged CRC; were they equal, the pattern
of the damage, with the four bytes of the CRC taken in reverse as they travel in network order,
would be zero in the field of the register (`WireFrame.evalBytes_damage`).  Patterns of one or two
bits are not, nor are bursts of 32 bits (`Crc32Root.evalBytes_ne_zero_of_card`,
`Crc32Root.evalBytes_ne_zero_of_burst`).

* `FrameDamage` - the patterns;
* `frameDecode_damaged` - the decoder rejects them.
-/

namespace OpenVlsnr

/-! ### Bytes of a pattern -/

theorem setBits_take {data : List Byte} {k p : ℕ} (h : p ∈ setBits (data.take k)) :
    p ∈ setBits data ∧ p < 8 * k := by
  obtain ⟨hlt, hbit⟩ := mem_setBits.mp h
  rw [List.length_take] at hlt
  have hk : p / 8 < k := by omega
  rw [messageBit, getD_take hk] at hbit
  exact ⟨mem_setBits.mpr ⟨by omega, hbit⟩, by omega⟩

theorem setBits_drop {data : List Byte} {k p : ℕ} (h : p ∈ setBits (data.drop k)) :
    8 * k + p ∈ setBits data := by
  obtain ⟨hlt, hbit⟩ := mem_setBits.mp h
  rw [List.length_drop] at hlt
  refine mem_setBits.mpr ⟨by omega, ?_⟩
  rw [messageBit, getD_drop] at hbit
  rw [messageBit, Nat.mul_add_mod, Nat.mul_add_div (by decide)]
  exact hbit

/-- A byte without set bits. -/
theorem getD_eq_zero_of_setBits {data : List Byte} {i : ℕ}
    (h : ∀ p ∈ setBits data, ¬ (8 * i ≤ p ∧ p < 8 * i + 8)) : data.getD i 0 = 0 := by
  by_cases hi : i < data.length
  · refine BitVec.eq_of_getLsbD_eq fun b hb => ?_
    have hnot : 8 * i + b ∉ setBits data := fun hmem => h _ hmem (by omega)
    rw [mem_setBits, messageBit, Nat.mul_add_mod, Nat.mul_add_div (by decide),
      Nat.div_eq_of_lt hb, Nat.mod_eq_of_lt hb, Nat.add_zero] at hnot
    have hbit : ¬ (data.getD i 0).getLsbD b = true := fun hset => hnot ⟨by omega, hset⟩
    rw [Bool.not_eq_true] at hbit
    rw [hbit]
    simp
  · exact List.getD_eq_default _ _ (not_lt.mp hi)

theorem evalBytes_eq_zero_of_card {F : Type*} [Field F] (β : F) {data : List Byte}
    (h : (setBits data).card = 0) : evalBytes β data = 0 := by
  rw [evalBytes_eq_sum, Finset.card_eq_zero.mp h, Finset.sum_empty]

/-- A byte of a damaged buffer. -/
theorem getD_zipWith_xor {data err : List Byte} (hlen : err.length = data.length) (i : ℕ) :
    (List.zipWith (· ^^^ ·) data err).getD i 0 = data.getD i 0 ^^^ err.getD i 0 := by
  have hsame : (List.zipWith (· ^^^ ·) data err).length = data.length := by
    rw [List.length_zipWith, hlen, min_self]
  by_cases hi : i < data.length
  · have herr : i < err.length := by rwa [hlen]
    have hboth : i < (List.zipWith (· ^^^ ·) data err).length := by rwa [hsame]
    rw [List.getD_eq_getElem _ _ hboth, List.getElem_zipWith, List.getD_eq_getElem _ _ hi,
      List.getD_eq_getElem _ _ herr]
  · have hdata : data.length ≤ i := not_lt.mp hi
    have herr : err.length ≤ i := by rwa [hlen]
    have hboth : (List.zipWith (· ^^^ ·) data err).length ≤ i := by rwa [hsame]
    rw [List.getD_eq_default _ _ hdata, List.getD_eq_default _ _ herr,
      List.getD_eq_default _ _ hboth]
    rfl

/-- Network order is linear. -/
theorem ntohl_xor {l e : List Byte} (hlen : e.length = l.length) :
    ntohl (List.zipWith (· ^^^ ·) l e) = ntohl l ^^^ ntohl e := by
  have happend : ∀ a b c d a' b' c' d' : Byte, (a ++ b ++ c ++ d) ^^^ (a' ++ b' ++ c' ++ d')
      = (a ^^^ a') ++ (b ^^^ b') ++ (c ^^^ c') ++ (d ^^^ d') := by
    intro a b c d a' b' c' d'
    simp only [BitVec.xor_append]
  simp only [ntohl, getD_zipWith_xor hlen]
  exact (happend _ _ _ _ _ _ _ _).symm

section
variable {F : Type*} [Field F] [CharP F 2]

theorem evalBits_append (β : F) {m n : ℕ} (x : BitVec m) (y : BitVec n) :
    evalBits β (x ++ y).toNat = β ^ n * evalBits β x.toNat + evalBits β y.toNat := by
  have hhigh : (x ++ y).toNat >>> n = x.toNat := by
    rw [BitVec.toNat_append, Nat.shiftRight_or_distrib, Nat.shiftLeft_shiftRight,
      Nat.shiftRight_eq_div_pow, Nat.div_eq_of_lt y.isLt, Nat.or_zero]
  have hlow : (x ++ y).toNat % 2 ^ n = y.toNat := by
    rw [BitVec.toNat_append, Nat.or_mod_two_pow, Nat.shiftLeft_eq, Nat.mul_mod_left, Nat.zero_or,
      Nat.mod_eq_of_lt y.isLt]
  rw [← split_low_bits (x ++ y).toNat n, evalBits_xor, hhigh, hlow, evalBits_shiftLeft]

/-- A CRC in network order is its bytes in reverse. -/
theorem evalBits_ntohl (β : F) {l : List Byte} (hlen : l.length = 4) :
    evalBits β (ntohl l).toNat = evalBytes β l.reverse := by
  obtain ⟨a, b, c, d, rfl⟩ := List.length_eq_four.mp hlen
  show evalBits β (a ++ b ++ c ++ d).toNat = evalBytes β [d, c, b, a]
  simp only [evalBits_append, evalBytes]
  ring

end

/-! ### Damage -/

/-- Flipped bits of a frame of `total` bytes: the magic and the payload length are intact, and
there are one or two, or a burst of 32 consecutive bits before the CRC. -/
structure FrameDamage (total : ℕ) (err : List Byte) : Prop where
  length_eq : err.length = total
  magic_intact : ∀ p ∈ setBits err, 32 ≤ p
  length_intact : ∀ p ∈ setBits err, ¬ (64 ≤ p ∧ p < 80)
  pattern : (setBits err).card = 1 ∨ (setBits err).card = 2 ∨
    (setBits err).Nonempty ∧
      ∃ start, ∀ p ∈ setBits err, start ≤ p ∧ p < start + 32 ∧ p < 8 * (total - 4)

/-- The damage, region by region. -/
structure DamageRegions (n : ℕ) (err eh ep et : List Byte) : Prop where
  err_eq : err = eh ++ (ep ++ et)
  length_eh : eh.length = 16
  length_ep : ep.length = n
  length_et : et.length = 4
  damage : FrameDamage (n + 20) err

section
variable {n : ℕ} {err eh ep et : List Byte}

theorem FrameDamage.regions (h : FrameDamage (n + 20) err) :
    ∃ eh ep et : List Byte, DamageRegions n err eh ep et := by
  obtain ⟨eh, ep, et, heh, hep, het, herr⟩ := exists_regions err n h.length_eq.ge
  rw [List.drop_eq_nil_of_le h.length_eq.le, List.append_nil] at herr
  exact ⟨eh, ep, et, herr, heh, hep, het, h⟩

/-- The bytes of the magic and of the payload length are not damaged. -/
theorem DamageRegions.getD_eq_zero (h : DamageRegions n err eh ep et) {i : ℕ}
    (hi : i < 4 ∨ i = 8 ∨ i = 9) : eh.getD i 0 = 0 := by
  have herr : err.getD i 0 = 0 := by
    refine getD_eq_zero_of_setBits fun p hp hin => ?_
    have hmagic := h.damage.magic_intact p hp
    have hlength := h.damage.length_intact p hp
    omega
  have hlt : i < eh.length := by
    rw [h.length_eh]
    omega
  rwa [h.err_eq, List.getD_append _ _ _ _ hlt] at herr

/-- No bit of the magic is set. -/
theorem DamageRegions.card_magic (h : DamageRegions n err eh ep et) :
    (setBits (eh.take 4)).card = 0 := by
  refine Finset.card_eq_zero.mpr (Finset.eq_empty_of_forall_notMem fun p hp => ?_)
  have htake : eh.take 4 = err.take 4 := by
    rw [h.err_eq, List.take_append_of_le_length (by rw [h.length_eh]; decide)]
  rw [htake] at hp
  obtain ⟨hmem, hlt⟩ := setBits_take hp
  exact absurd (h.damage.magic_intact p hmem) (by omega)

/-- The damage, with what the CRC covers apart. -/
theorem DamageRegions.err_split (h : DamageRegions n err eh ep et) :
    err = eh.take 4 ++ ((eh.drop 4 ++ ep) ++ et) := by
  rw [List.append_assoc, ← List.append_assoc (eh.take 4), List.take_append_drop]
  exact h.err_eq

theorem DamageRegions.length_covered (h : DamageRegions n err eh ep et) :
    (eh.drop 4 ++ ep).length = 12 + n := by
  rw [List.length_append, List.length_drop, h.length_eh, h.length_ep]

theorem DamageRegions.card_eq (h : DamageRegions n err eh ep et) :
    (setBits err).card = (setBits ((eh.drop 4 ++ ep) ++ et.reverse)).card := by
  rw [h.err_split, card_setBits_append, h.card_magic, Nat.zero_add, card_setBits_append _ et,
    card_setBits_append _ et.reverse, card_setBits_reverse]

/-- A burst before the CRC leaves the CRC alone. -/
theorem DamageRegions.card_crc (h : DamageRegions n err eh ep et)
    (hbefore : ∀ p ∈ setBits err, p < 8 * (16 + n)) : (setBits et).card = 0 := by
  refine Finset.card_eq_zero.mpr (Finset.eq_empty_of_forall_notMem fun p hp => ?_)
  have hdrop : et = err.drop (16 + n) := by
    have hlen : (eh ++ ep).length = 16 + n := by
      rw [List.length_append, h.length_eh, h.length_ep]
    rw [h.err_eq, ← List.append_assoc, List.drop_left' hlen]
  rw [hdrop] at hp
  exact absurd (hbefore _ (setBits_drop hp)) (by omega)

/-- **The damage is seen**: the patterns of the message and of the CRC are not related as those of
a message and its own CRC are. -/
theorem DamageRegions.evalBytes_ne (h : DamageRegions n err eh ep et) (hn : n ≤ frameMaxPayload)
    {F : Type*} [Field F] [CharP F 2] {β : F} (hβ : Crc32Root β) :
    evalBytes β (eh.drop 4 ++ ep)
      ≠ β ^ (8 * (eh.drop 4 ++ ep).length) * evalBits β (ntohl et).toNat := by
  intro hsame
  rw [evalBits_ntohl β h.length_et] at hsame
  have hzero : evalBytes β ((eh.drop 4 ++ ep) ++ et.reverse) = 0 := by
    rw [evalBytes_append, ← hsame, CharTwo.add_self_eq_zero]
  have hlen : 8 * ((eh.drop 4 ++ ep) ++ et.reverse).length ≤ 2 ^ 32 - 1 := by
    rw [List.length_append, h.length_covered, List.length_reverse, h.length_et]
    exact le_trans (by omega : _ ≤ 8 * (12 + frameMaxPayload + 4)) (by decide)
  obtain hone | htwo | ⟨hsome, start, hburst⟩ := h.damage.pattern
  · exact hβ.evalBytes_ne_zero_of_card hlen (Or.inl (h.card_eq ▸ hone)) hzero
  · exact hβ.evalBytes_ne_zero_of_card hlen (Or.inr (h.card_eq ▸ htwo)) hzero
  · refine hβ.evalBytes_ne_zero_of_burst hsome (fun p hp => ⟨(hburst p hp).1, (hburst p hp).2.1⟩) ?_
    have hcrc := h.card_crc fun p hp => by
      have := (hburst p hp).2.2
      omega
    have hcovered : evalBytes β (eh.drop 4 ++ ep) = 0 := by
      rw [hsame, evalBytes_eq_zero_of_card β ((card_setBits_reverse et).trans hcrc), mul_zero]
    rw [h.err_split, evalBytes_append, evalBytes_append, hcovered,
      evalBytes_eq_zero_of_card β h.card_magic, evalBytes_eq_zero_of_card β hcrc]
    simp

end

/-! ### The decoder -/

/-- A damaged header still begins with the magic and names the payload's length. -/
theorem DamageRegions.read_header {n : ℕ} {err eh ep et : List Byte}
    (h : DamageRegions n err eh ep et) (hdr : FrameHeader) :
    (FrameHeader.read (List.zipWith (· ^^^ ·) hdr.bytes eh)).magic = hdr.magic ∧
      (FrameHeader.read (List.zipWith (· ^^^ ·) hdr.bytes eh)).payloadLen = hdr.payloadLen := by
  have hlen : eh.length = hdr.bytes.length := by rw [h.length_eh, hdr.length_bytes]
  have hsame : ∀ i, i < 4 ∨ i = 8 ∨ i = 9 →
      (List.zipWith (· ^^^ ·) hdr.bytes eh).getD i 0 = hdr.bytes.getD i 0 := by
    intro i hi
    rw [getD_zipWith_xor hlen, h.getD_eq_zero hi]
    exact BitVec.xor_zero
  constructor
  · calc ntohl (List.zipWith (· ^^^ ·) hdr.bytes eh)
        = ntohl hdr.bytes := by
          simp only [ntohl, hsame 0 (by decide), hsame 1 (by decide), hsame 2 (by decide),
            hsame 3 (by decide)]
      _ = hdr.magic := ntohl_htonl hdr.magic
  · calc ntohs ((List.zipWith (· ^^^ ·) hdr.bytes eh).drop 8)
        = ntohs (hdr.bytes.drop 8) := by
          simp only [ntohs, getD_drop, hsame (8 + 0) (by decide), hsame (8 + 1) (by decide)]
      _ = hdr.payloadLen := ntohs_htons hdr.payloadLen

/-- **A damaged frame fails its checks.** -/
theorem WireFrame.check_damaged (f : WireFrame) {err : List Byte}
    (h : FrameDamage (f.payload.length + 20) err) (trailing : List Byte) :
    frameCheck (List.zipWith (· ^^^ ·) f.bytes err ++ trailing) = some (.error errBadmsg) := by
  obtain ⟨eh, ep, et, hd⟩ := h.regions
  obtain ⟨hmagic, hplen⟩ := hd.read_header f.hdr
  have hhead : f.hdr.bytes.length = eh.length := by rw [hd.length_eh, f.hdr.length_bytes]
  have hbytes : List.zipWith (· ^^^ ·) f.bytes err
      = List.zipWith (· ^^^ ·) f.hdr.bytes eh ++ (List.zipWith (· ^^^ ·) f.payload ep
        ++ List.zipWith (· ^^^ ·) (htonl (crc32 f.covered)) et) := by
    rw [WireFrame.bytes, hd.err_eq, List.append_assoc, List.zipWith_append hhead,
      List.zipWith_append hd.length_ep.symm]
  have hregions : FrameRegions (List.zipWith (· ^^^ ·) f.bytes err ++ trailing)
      (List.zipWith (· ^^^ ·) f.hdr.bytes eh) (List.zipWith (· ^^^ ·) f.payload ep)
      (List.zipWith (· ^^^ ·) (htonl (crc32 f.covered)) et) trailing := by
    have hpl : (List.zipWith (· ^^^ ·) f.payload ep).length = f.payload.length := by
      rw [List.length_zipWith, hd.length_ep, min_self]
    refine ⟨?_, ?_, ?_, ?_, ?_, ?_⟩
    · rw [hbytes, List.append_assoc, List.append_assoc]
    · rw [List.length_zipWith, ← hhead, min_self, f.hdr.length_bytes]
    · rw [List.length_zipWith, hd.length_et]
      rfl
    · rw [hmagic, f.magic_eq]
    · rw [hplen, hpl, f.len_eq]
    · rw [hpl]
      exact f.len_le
  have hcovered : (List.zipWith (· ^^^ ·) f.hdr.bytes eh).drop 4
      ++ List.zipWith (· ^^^ ·) f.payload ep
      = List.zipWith (· ^^^ ·) f.covered (eh.drop 4 ++ ep) := by
    rw [WireFrame.covered, List.drop_zipWith, List.zipWith_append]
    rw [List.length_drop, List.length_drop, hhead]
  have hlen : (eh.drop 4 ++ ep).length = f.covered.length := by
    rw [WireFrame.covered, hd.length_covered, List.length_append, List.length_drop,
      f.hdr.length_bytes]
  obtain ⟨β, hβ⟩ := exists_crc32Root
  have hcrc : crc32 (List.zipWith (· ^^^ ·) f.covered (eh.drop 4 ++ ep))
      ≠ ntohl (List.zipWith (· ^^^ ·) (htonl (crc32 f.covered)) et) := by
    rw [ntohl_xor hd.length_et, ntohl_htonl]
    intro hsame
    have hcollision := hβ.evalBytes_of_collision hlen hsame
    rw [← hlen] at hcollision
    exact hd.evalBytes_ne f.len_le hβ hcollision
  rw [hregions.check, hcovered, if_pos hcrc]

/-- **Damaged frames are rejected.** -/
theorem frameDecode_damaged {buf out : List Byte} {payload : Option (List Byte)}
    {frameType total : ℕ} {sequence : BitVec 32} {streamId : BitVec 16}
    (henc : frameEncode buf payload frameType sequence streamId = ((total : ℤ), out))
    {err : List Byte} (hdamage : FrameDamage total err) (trailing : List Byte)
    (dst : Option (List Byte)) :
    frameDecode (List.zipWith (· ^^^ ·) (out.take total) err ++ trailing) dst
      = some ⟨errBadmsg, dst, none⟩ := by
  obtain ⟨f, rfl, hbytes⟩ := frameEncode_ok henc
  rw [hbytes, frameDecode, f.check_damaged hdamage trailing]
  rfl

/-- Two flipped bits, one of the stream id and one of the CRC, of an empty frame. -/
theorem frameDecode_damaged_two :
    ∃ out : List Byte,
      frameEncode (List.replicate 20 0) (some []) 0 1 2 = (((20 : ℕ) : ℤ), out) ∧
      frameDecode (List.zipWith (· ^^^ ·) (out.take 20)
          [0, 0, 0, 0, 0, 0, 0, 0, 0, 0, 0, 0, 0, 0, 0, 1, 0, 0, 0, 128] ++ []) none
        = some ⟨errBadmsg, none, none⟩ := by
  have henc : frameEncode (List.replicate 20 0) (some []) 0 1 2
      = (((20 : ℕ) : ℤ), (frameEncode (List.replicate 20 0) (some []) 0 1 2).2) := by
    decide +kernel
  refine ⟨_, henc, frameDecode_damaged henc ⟨rfl, ?_, ?_, Or.inr (Or.inl ?_)⟩ [] none⟩
  · decide +kernel
  · decide +kernel
  · decide +kernel

end OpenVlsnr
