import OpenVlsnr.BbFrameBits
import OpenVlsnr.LinearRegister

/-!
# CRC-8 as a linear register (`dvbs2x_bb_crc8`)

The register of `dvbs2x_bb_crc8` takes a byte at a time; fed the same bits one by one it is a
`LinearRegister` (`crc8Byte_eq`).  A message is followed by its CRC exactly when the register ends
at zero (`bbCrc8_eq_iff`), and an error that is odd, is two bits within 93, or lies within eight
consecutive bits does not leave zero (`crc8_detects`).
-/

namespace OpenVlsnr

/-! ### Bytes from bits -/

/-- Reassembling whole bytes and serialising them again. -/
theorem flatMap_byteBits_bitsByte {n : ℕ} {bits : List Bool} (hlen : bits.length = 8 * n) :
    ((List.range n).map fun i => bitsByte bits (i * 8)).flatMap byteBits = bits := by
  refine list_ext_getD false ?_ fun j hj => ?_
  · rw [flatMap_byteBits_length, List.length_map, List.length_range, hlen]
  · rw [flatMap_byteBits_length, List.length_map, List.length_range] at hj
    have hsplit : j = j / 8 * 8 + j % 8 := (Nat.div_add_mod' j 8).symm
    have hbyte : j / 8 < ((List.range n).map fun i => bitsByte bits (i * 8)).length := by
      rw [List.length_map, List.length_range]
      omega
    have h := getD_flatMap_byteBits _ [] (j / 8) (j % 8) hbyte (Nat.mod_lt j (by decide))
    rw [List.append_nil, ← hsplit, getD_map_range, if_pos (by omega),
      bitsByte_getLsbD _ _ _ (by omega)] at h
    rw [h]
    congr 1
    omega

/-! ### The register -/

/-- The polynomial is odd and the shift loses nothing: a register can be shifted back. -/
theorem crc8Shift_injective : Function.Injective crc8Shift := by
  have hback : ∀ r : Byte, (if (crc8Shift r).getLsbD 0
      then ((crc8Shift r ^^^ bbCrc8Poly) >>> 1) ||| 0x80 else crc8Shift r >>> 1) = r := by
    decide +kernel
  intro a b h
  rw [← hback a, ← hback b, h]

/-- Adding before the shift or after it. -/
theorem crc8Shift_xor (a b : Byte) : crc8Shift (a ^^^ b) = crc8Shift a ^^^ crc8Shift b := by
  have hform : ∀ v : Byte, crc8Shift v = (v <<< 1) ^^^ (if v.getLsbD 7 then bbCrc8Poly else 0) := by
    decide +kernel
  rw [hform, hform a, hform b, BitVec.getLsbD_xor, BitVec.shiftLeft_xor_distrib]
  refine BitVec.eq_of_getLsbD_eq fun i _ => ?_
  cases a.getLsbD 7 <;> cases b.getLsbD 7 <;> simp <;> grind

/-- The register of `dvbs2x_bb_crc8`: a data bit enters at the top. -/
def crc8Register : LinearRegister 8 where
  step := crc8Shift
  load := 0x80
  step_xor := crc8Shift_xor
  step_injective := crc8Shift_injective

/-- Loading the top bit of a byte and shifting the rest up. -/
theorem crc8Shift_top (v : Byte) :
    crc8Shift v = crc8Shift (if v.getLsbD 7 then 0x80 else 0) ^^^ (v <<< 1) := by
  revert v
  decide +kernel

/-- After `k` shifts the first `k` bits of the byte have entered, and the others have moved up. -/
theorem crc8Shift_iterate (crc d : Byte) (k : ℕ) (hk : k ≤ 8) :
    crc8Shift^[k] (crc ^^^ d)
      = crc8Register.run crc ((List.range k).map fun b => d.getLsbD (7 - b)) ^^^ (d <<< k) := by
  induction k with
  | zero => simp
  | succ k ih =>
    have htop : (d <<< k).getLsbD 7 = d.getLsbD (7 - k) := by
      rw [BitVec.getLsbD_shiftLeft]
      simp [show ¬7 < k by omega]
    rw [Function.iterate_succ_apply', ih (by omega), crc8Shift_xor, crc8Shift_top (d <<< k), htop,
      List.range_succ, List.map_append, List.map_singleton, crc8Register.run_append,
      BitVec.shiftLeft_add, ← BitVec.xor_assoc, ← crc8Shift_xor]
    rfl

/-- **A byte is its eight bits**, the most significant one first. -/
theorem crc8Byte_eq (crc d : Byte) : crc8Byte crc d = crc8Register.run crc (byteBits d) := by
  have hout : d <<< 8 = 0 := by
    revert d
    decide +kernel
  rw [crc8Byte, crc8Shift_iterate crc d 8 le_rfl, hout]
  exact BitVec.xor_zero

theorem foldl_crc8Byte (crc : Byte) (data : List Byte) :
    data.foldl crc8Byte crc = crc8Register.run crc (data.flatMap byteBits) := by
  induction data generalizing crc with
  | nil => rfl
  | cons d data ih => rw [List.foldl_cons, ih, List.flatMap_cons, crc8Register.run_append,
      crc8Byte_eq]

/-- **The check**: a message and its CRC leave zero. -/
theorem bbCrc8_eq_iff (data : List Byte) (crc : Byte) :
    bbCrc8 data = crc ↔ crc8Register.run 0 ((data ++ [crc]).flatMap byteBits) = 0 := by
  have hlast : crc8Register.run 0 ((data ++ [crc]).flatMap byteBits)
      = crc8Shift^[8] (bbCrc8 data ^^^ crc) := by
    rw [← foldl_crc8Byte, List.foldl_append, List.foldl_cons, List.foldl_nil]
    rfl
  rw [hlast]
  constructor
  · rintro rfl
    rw [BitVec.xor_self]
    exact crc8Register.iterate_zero 8
  · intro h
    exact BitVec.xor_eq_zero_iff.mp (crc8Register.iterate_eq_zero h)

/-! ### Detection -/

/-- The parity of a byte, kept by a shift because the polynomial has the factor `x + 1`. -/
def byteParity (v : Byte) : Bool := (List.range 8).foldl (fun p i => p ^^ v.getLsbD i) false

theorem foldl_xor_xor (f g : ℕ → Bool) (is : List ℕ) (x y : Bool) :
    is.foldl (fun p i => p ^^ (f i ^^ g i)) (x ^^ y)
      = (is.foldl (fun p i => p ^^ f i) x ^^ is.foldl (fun p i => p ^^ g i) y) := by
  induction is generalizing x y with
  | nil => rfl
  | cons i is ih =>
    rw [List.foldl_cons, List.foldl_cons, List.foldl_cons, ← ih]
    congr 1
    cases x <;> cases y <;> cases f i <;> cases g i <;> rfl

theorem byteParity_xor (a b : Byte) : byteParity (a ^^^ b) = (byteParity a ^^ byteParity b) := by
  simp only [byteParity, BitVec.getLsbD_xor]
  exact foldl_xor_xor _ _ _ false false

theorem byteParity_shift (v : Byte) : byteParity (crc8Shift v) = byteParity v := by
  revert v
  decide +kernel

/-- The order of the register on a single bit is 93. -/
theorem crc8Register_order (d : ℕ) (hpos : 0 < d) (hlt : d < 93) :
    crc8Register.step^[d] crc8Register.load ≠ crc8Register.load := by
  have hall : ∀ d < 93, 0 < d → crc8Shift^[d] 0x80 ≠ 0x80 := by decide +kernel
  exact hall d hlt hpos

theorem crc8Register_window (b : List Bool) (hlen : b.length = 8) (hone : true ∈ b) :
    crc8Register.run 0 b ≠ 0 := by
  have hbyte : byteBits (bitsByte b 0) = b := by
    simpa using flatMap_byteBits_bitsByte (n := 1) hlen
  rw [← hbyte, ← crc8Byte_eq, crc8Byte]
  intro h
  have hzero : bitsByte b 0 = 0 := by
    simpa using crc8Register.iterate_eq_zero h
  rw [← hbyte, hzero] at hone
  exact absurd hone (by decide)

/-- **What the CRC detects.** -/
theorem crc8_detects {e : List Bool}
    (h : e.count true % 2 = 1 ∨ (e.count true = 2 ∧ e.length ≤ 93) ∨
      (8 ≤ e.length ∧ BurstWithin 8 e)) : crc8Register.run 0 e ≠ 0 := by
  obtain hodd | ⟨htwo, hlen⟩ | ⟨hlen, hburst⟩ := h
  · exact crc8Register.run_ne_zero_of_odd byteParity_xor byteParity_shift (by decide) hodd
  · exact crc8Register.run_ne_zero_of_two crc8Register_order hlen htwo
  · exact crc8Register.run_ne_zero_of_burst crc8Register_window hlen hburst

end OpenVlsnr
