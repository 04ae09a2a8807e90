import OpenVlsnr.Crc32
import OpenVlsnr.LinearRegister

/-!
# CRC-32 bit by bit

The table of `dvbs2x_crc32` stands for a reflected register that takes in one bit at a time, the
least significant bit of each byte first.  That register is a `LinearRegister`; a byte step is eight
shifts of it (`crc32Step_eq`), so the table-driven CRC is the bitwise one (`crc32_bitwise`).
-/

namespace OpenVlsnr

/-! ### The bitwise definition -/

/-- One message bit of the reflected CRC-32 with polynomial `0xEDB88320`. -/
def crc32Bit (crc : BitVec 32) (x : Bool) : BitVec 32 :=
  if crc.getLsbD 0 ^^ x then (crc >>> 1) ^^^ 0xEDB88320 else crc >>> 1

/-- The bits of a byte, the least significant one first. -/
def lsbBits (p : Byte) : List Bool := (List.range 8).map fun b => p.getLsbD b

/-- The bitwise CRC-32. -/
def crc32Bitwise (data : List Byte) : BitVec 32 :=
  (data.flatMap lsbBits).foldl crc32Bit 0xFFFFFFFF ^^^ 0xFFFFFFFF

/-! ### The register -/

theorem crc32Shift_form (v : BitVec 32) :
    crc32Shift v = (v >>> 1) ^^^ (if v.getLsbD 0 then 0xEDB88320 else 0) := by
  unfold crc32Shift
  split
  · rfl
  · exact BitVec.xor_zero.symm

theorem crc32Shift_xor (a b : BitVec 32) :
    crc32Shift (a ^^^ b) = crc32Shift a ^^^ crc32Shift b := by
  rw [crc32Shift_form, crc32Shift_form a, crc32Shift_form b, BitVec.getLsbD_xor,
    BitVec.ushiftRight_xor_distrib]
  refine BitVec.eq_of_getLsbD_eq fun i _ => ?_
  cases a.getLsbD 0 <;> cases b.getLsbD 0 <;> simp <;> grind

/-- The top bit of the polynomial shows which way a shift went. -/
theorem crc32Shift_injective : Function.Injective crc32Shift := by
  have htop : ∀ v, (crc32Shift v).getLsbD 31 = v.getLsbD 0 := by
    intro v
    rw [crc32Shift_form, BitVec.getLsbD_xor, BitVec.getLsbD_ushiftRight,
      BitVec.getLsbD_of_ge v (1 + 31) (by decide)]
    cases v.getLsbD 0 <;> rfl
  intro a b h
  have hlow : a.getLsbD 0 = b.getLsbD 0 := by rw [← htop a, ← htop b, h]
  rw [crc32Shift_form, crc32Shift_form b, hlow] at h
  have hshift : a >>> 1 = b >>> 1 := by
    simpa using congrArg (· ^^^ if b.getLsbD 0 then 0xEDB88320#32 else 0) h
  refine BitVec.eq_of_getLsbD_eq fun i hi => ?_
  cases i with
  | zero => exact hlow
  | succ i =>
    have hbit := congrArg (·.getLsbD i) hshift
    simpa [BitVec.getLsbD_ushiftRight, Nat.add_comm] using hbit

/-- The register behind the table: a data bit enters at the bottom. -/
def crc32Register : LinearRegister 32 where
  step := crc32Shift
  load := 1
  step_xor := crc32Shift_xor
  step_injective := crc32Shift_injective

theorem crc32Register_shift : crc32Register.shift = crc32Bit := by
  funext crc x
  have hload : ∀ v : BitVec 32, crc32Shift (v ^^^ 1) = crc32Bit v true := by
    intro v
    have hdown : (v ^^^ 1) >>> 1 = v >>> 1 := by simp [BitVec.ushiftRight_xor_distrib]
    rw [crc32Shift, crc32Bit, hdown]
    simp
  cases x with
  | false =>
    rw [crc32Register.shift_false]
    simp [crc32Register, crc32Shift, crc32Bit]
  | true => exact hload crc

/-- Shifting the lowest bit out and the rest down. -/
theorem crc32Shift_low (v : BitVec 32) :
    crc32Shift v = crc32Shift (if v.getLsbD 0 then 1 else 0) ^^^ (v >>> 1) := by
  rw [crc32Shift_form, BitVec.xor_comm]
  congr 1
  cases v.getLsbD 0 <;> rfl

/-- After `k` shifts the first `k` bits of the word have entered, and the others have moved down. -/
theorem crc32Shift_iterate (crc d : BitVec 32) (k : ℕ) :
    crc32Shift^[k] (crc ^^^ d)
      = crc32Register.run crc ((List.range k).map fun b => d.getLsbD b) ^^^ (d >>> k) := by
  induction k with
  | zero => simp
  | succ k ih =>
    have hlow : (d >>> k).getLsbD 0 = d.getLsbD k := by simp
    rw [Function.iterate_succ_apply', ih, crc32Shift_xor, crc32Shift_low (d >>> k), hlow,
      List.range_succ, List.map_append, List.map_singleton, crc32Register.run_append,
      BitVec.shiftRight_add, ← BitVec.xor_assoc, ← crc32Shift_xor]
    rfl

/-! ### The table -/

/-- A byte is gone after eight shifts. -/
theorem byte_ushiftRight (p : Byte) : p.setWidth 32 >>> 8 = 0#32 := by
  refine BitVec.eq_of_getLsbD_eq fun i _ => ?_
  simp [BitVec.getLsbD_setWidth]

/-- **A byte step is eight shifts.** -/
theorem crc32Step_eq (crc : BitVec 32) (p : Byte) :
    crc32Step crc p = crc32Shift^[8] (crc ^^^ p.setWidth 32) := by
  set x := crc ^^^ p.setWidth 32 with hx
  have hlt : (x &&& 0xFF).toNat < 256 := by
    rw [BitVec.toNat_and]
    exact Nat.and_lt_two_pow _ (by decide : (0xFF#32).toNat < 2 ^ 8)
  have hhigh : crc >>> 8 = x >>> 8 := by
    rw [hx, BitVec.ushiftRight_xor_distrib, byte_ushiftRight]
    exact BitVec.xor_zero.symm
  have hbits : (List.range 8).map (fun b => (x &&& 0xFF).getLsbD b)
      = (List.range 8).map fun b => x.getLsbD b := by
    refine List.map_congr_left fun b hb => ?_
    have hall : ∀ b < 8, (0xFF#32).getLsbD b = true := by decide
    rw [BitVec.getLsbD_and, show (0xFF : BitVec 32) = 0xFF#32 from rfl,
      hall b (List.mem_range.mp hb), Bool.and_true]
  have hout : (x &&& 0xFF) >>> 8 = 0#32 := by
    refine BitVec.eq_of_getLsbD_eq fun i _ => ?_
    have hnone : ∀ i < 32, (0xFF#32).getLsbD (8 + i) = false := by decide
    rw [BitVec.getLsbD_ushiftRight, BitVec.getLsbD_and, show (0xFF : BitVec 32) = 0xFF#32 from rfl,
      hnone i ‹_›]
    simp
  -- the low byte goes through the table, the rest moves down
  have hlow := crc32Shift_iterate 0 (x &&& 0xFF) 8
  have hall := crc32Shift_iterate 0 x 8
  have hzero : ∀ v : BitVec 32, 0 ^^^ v = v := fun v => BitVec.zero_xor
  rw [hbits, hout, hzero, BitVec.xor_zero] at hlow
  rw [hzero] at hall
  rw [crc32Step, ← hx, crc32Table_eq _ hlt, BitVec.ofNat_toNat, BitVec.setWidth_eq, hlow, hall,
    hhigh]

theorem crc32Run_eq (crc : BitVec 32) (data : List Byte) :
    crc32Run crc data = (data.flatMap lsbBits).foldl crc32Bit crc := by
  induction data generalizing crc with
  | nil => rfl
  | cons p data ih =>
    have hbits : (List.range 8).map (fun b => (p.setWidth 32).getLsbD b) = lsbBits p := by
      refine List.map_congr_left fun b hb => ?_
      have := List.mem_range.mp hb
      simp [show b < 32 by omega]
    have hbyte : crc32Step crc p = (lsbBits p).foldl crc32Bit crc := by
      rw [crc32Step_eq, crc32Shift_iterate, hbits, byte_ushiftRight, ← crc32Register_shift]
      exact BitVec.xor_zero
    rw [List.flatMap_cons, List.foldl_append, ← hbyte, ← ih]
    rfl

/-- **The table-driven CRC-32 is the bitwise one**, for every byte string; every table entry is
eight shifts of its index, and a byte step composes eight shifts of the register. -/
theorem crc32_bitwise :
    (∀ data, crc32 data = crc32Bitwise data) ∧
      (crc32Table.length = 256 ∧
        ∀ i < 256, crc32Table.getD i 0 = crc32Shift^[8] (BitVec.ofNat 32 i)) ∧
      ∀ crc p, crc32Step crc p = crc32Shift^[8] (crc ^^^ p.setWidth 32) := by
  refine ⟨fun data => ?_, ⟨by decide +kernel, crc32Table_eq⟩, crc32Step_eq⟩
  rw [crc32, crc32Run_eq, crc32Bitwise]

/-- The check value of the bitwise definition. -/
example : crc32Bitwise [0x31, 0x32, 0x33, 0x34, 0x35, 0x36, 0x37, 0x38, 0x39] = 0xCBF43926 := by
  decide +kernel

end OpenVlsnr
