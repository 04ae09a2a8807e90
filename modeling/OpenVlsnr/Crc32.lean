import OpenVlsnr.Gf2Pattern
import OpenVlsnr.ListGetD
import OpenVlsnr.Types
import Mathlib.FieldTheory.IsAlgClosed.AlgebraicClosure

/-!
# CRC-32 (`crc32.c`)

`dvbs2x_crc32` from its table, and its algebra.  A table entry is eight shifts of the register
(`crc32Table_eq`).  Read a register as a bit pattern in `β`, a root of the reflected polynomial:
then a shift divides by `β` (`evalBits_crc32Shift`), so the registers of two messages of `n` bytes
differ, `β ^ (8 * n)` times, by the sum of `β ^ p` over the bits `p` in which the messages differ,
the least significant bit of each byte first (`evalBytes_run`).  Such a sum of one or two powers is
not zero, as `β` is primitive, and one within 32 consecutive bits is a power of `β` times a
pattern.

* `crc32`, `crc32Table`, `crc32Shift` - the code, and the register it is a table of;
* `evalBytes_ne_zero_of_card`, `evalBytes_ne_zero_of_burst` - error patterns that are not zero.
-/

namespace OpenVlsnr

open Finset

/-! ### The code -/

/-- `crc32_table`. -/
def crc32Table : List (BitVec 32) :=
  [0x00000000, 0x77073096, 0xee0e612c, 0x990951ba, 0x076dc419, 0x706af48f, 0xe963a535, 0x9e6495a3,
   0x0edb8832, 0x79dcb8a4, 0xe0d5e91e, 0x97d2d988, 0x09b64c2b, 0x7eb17cbd, 0xe7b82d07, 0x90bf1d91,
   0x1db71064, 0x6ab020f2, 0xf3b97148, 0x84be41de, 0x1adad47d, 0x6ddde4eb, 0xf4d4b551, 0x83d385c7,
   0x136c9856, 0x646ba8c0, 0xfd62f97a, 0x8a65c9ec, 0x14015c4f, 0x63066cd9, 0xfa0f3d63, 0x8d080df5,
   0x3b6e20c8, 0x4c69105e, 0xd56041e4, 0xa2677172, 0x3c03e4d1, 0x4b04d447, 0xd20d85fd, 0xa50ab56b,
   0x35b5a8fa, 0x42b2986c, 0xdbbbc9d6, 0xacbcf940, 0x32d86ce3, 0x45df5c75, 0xdcd60dcf, 0xabd13d59,
   0x26d930ac, 0x51de003a, 0xc8d75180, 0xbfd06116, 0x21b4f4b5, 0x56b3c423, 0xcfba9599, 0xb8bda50f,
   0x2802b89e, 0x5f058808, 0xc60cd9b2, 0xb10be924, 0x2f6f7c87, 0x58684c11, 0xc1611dab, 0xb6662d3d,
   0x76dc4190, 0x01db7106, 0x98d220bc, 0xefd5102a, 0x71b18589, 0x06b6b51f, 0x9fbfe4a5, 0xe8b8d433,
   0x7807c9a2, 0x0f00f934, 0x9609a88e, 0xe10e9818, 0x7f6a0dbb, 0x086d3d2d, 0x91646c97, 0xe6635c01,
   0x6b6b51f4, 0x1c6c6162, 0x856530d8, 0xf262004e, 0x6c0695ed, 0x1b01a57b, 0x8208f4c1, 0xf50fc457,
   0x65b0d9c6, 0x12b7e950, 0x8bbeb8ea, 0xfcb9887c, 0x62dd1ddf, 0x15da2d49, 0x8cd37cf3, 0xfbd44c65,
   0x4db26158, 0x3ab551ce, 0xa3bc0074, 0xd4bb30e2, 0x4adfa541, 0x3dd895d7, 0xa4d1c46d, 0xd3d6f4fb,
   0x4369e96a, 0x346ed9fc, 0xad678846, 0xda60b8d0, 0x44042d73, 0x33031de5, 0xaa0a4c5f, 0xdd0d7cc9,
   0x5005713c, 0x270241aa, 0xbe0b1010, 0xc90c2086, 0x5768b525, 0x206f85b3, 0xb966d409, 0xce61e49f,
   0x5edef90e, 0x29d9c998, 0xb0d09822, 0xc7d7a8b4, 0x59b33d17, 0x2eb40d81, 0xb7bd5c3b, 0xc0ba6cad,
   0xedb88320, 0x9abfb3b6, 0x03b6e20c, 0x74b1d29a, 0xead54739, 0x9dd277af, 0x04db2615, 0x73dc1683,
   0xe3630b12, 0x94643b84, 0x0d6d6a3e, 0x7a6a5aa8, 0xe40ecf0b, 0x9309ff9d, 0x0a00ae27, 0x7d079eb1,
   0xf00f9344, 0x8708a3d2, 0x1e01f268, 0x6906c2fe, 0xf762575d, 0x806567cb, 0x196c3671, 0x6e6b06e7,
   0xfed41b76, 0x89d32be0, 0x10da7a5a, 0x67dd4acc, 0xf9b9df6f, 0x8ebeeff9, 0x17b7be43, 0x60b08ed5,
   0xd6d6a3e8, 0xa1d1937e, 0x38d8c2c4, 0x4fdff252, 0xd1bb67f1, 0xa6bc5767, 0x3fb506dd, 0x48b2364b,
   0xd80d2bda, 0xaf0a1b4c, 0x36034af6, 0x41047a60, 0xdf60efc3, 0xa867df55, 0x316e8eef, 0x4669be79,
   0xcb61b38c, 0xbc66831a, 0x256fd2a0, 0x5268e236, 0xcc0c7795, 0xbb0b4703, 0x220216b9, 0x5505262f,
   0xc5ba3bbe, 0xb2bd0b28, 0x2bb45a92, 0x5cb36a04, 0xc2d7ffa7, 0xb5d0cf31, 0x2cd99e8b, 0x5bdeae1d,
   0x9b64c2b0, 0xec63f226, 0x756aa39c, 0x026d930a, 0x9c0906a9, 0xeb0e363f, 0x72076785, 0x05005713,
   0x95bf4a82, 0xe2b87a14, 0x7bb12bae, 0x0cb61b38, 0x92d28e9b, 0xe5d5be0d, 0x7cdcefb7, 0x0bdbdf21,
   0x86d3d2d4, 0xf1d4e242, 0x68ddb3f8, 0x1fda836e, 0x81be16cd, 0xf6b9265b, 0x6fb077e1, 0x18b74777,
   0x88085ae6, 0xff0f6a70, 0x66063bca, 0x11010b5c, 0x8f659eff, 0xf862ae69, 0x616bffd3, 0x166ccf45,
   0xa00ae278, 0xd70dd2ee, 0x4e048354, 0x3903b3c2, 0xa7672661, 0xd06016f7, 0x4969474d, 0x3e6e77db,
   0xaed16a4a, 0xd9d65adc, 0x40df0b66, 0x37d83bf0, 0xa9bcae53, 0xdebb9ec5, 0x47b2cf7f, 0x30b5ffe9,
   0xbdbdf21c, 0xcabac28a, 0x53b39330, 0x24b4a3a6, 0xbad03605, 0xcdd70693, 0x54de5729, 0x23d967bf,
   0xb3667a2e, 0xc4614ab8, 0x5d681b02, 0x2a6f2b94, 0xb40bbe37, 0xc30c8ea1, 0x5a05df1b, 0x2d02ef8d]

/-- The body of the loop of `dvbs2x_crc32`. -/
def crc32Step (crc : BitVec 32) (p : Byte) : BitVec 32 :=
  crc32Table.getD ((crc ^^^ p.setWidth 32) &&& 0xFF).toNat 0 ^^^ (crc >>> 8)

/-- The register after `data`. -/
def crc32Run (crc : BitVec 32) (data : List Byte) : BitVec 32 :=
  data.foldl crc32Step crc

/-- `dvbs2x_crc32`. -/
def crc32 (data : List Byte) : BitVec 32 :=
  crc32Run 0xFFFFFFFF data ^^^ 0xFFFFFFFF

/-- One shift of the reflected register. -/
def crc32Shift (crc : BitVec 32) : BitVec 32 :=
  if crc.getLsbD 0 then (crc >>> 1) ^^^ 0xEDB88320 else crc >>> 1

/-! ### The register in a field -/

/-- The polynomial of the reflected register, its constant term first. -/
abbrev crc32Poly : ℕ := 0x1DB710641

/-- The table holds eight shifts of each index. -/
theorem crc32Table_eq : ∀ i < 256,
    crc32Table.getD i 0 = crc32Shift^[8] (BitVec.ofNat 32 i) := by
  intro i hi
  have htable : crc32Table = (List.range 256).map fun i => crc32Shift^[8] (BitVec.ofNat 32 i) := by
    decide +kernel
  rw [htable, getD_map_range, if_pos hi]

/-- The low `k` bits of a pattern apart from the rest. -/
theorem split_low_bits (v k : ℕ) : (v >>> k) <<< k ^^^ v % 2 ^ k = v := by
  refine Nat.eq_of_testBit_eq fun i => ?_
  rw [Nat.testBit_xor, Nat.testBit_shiftLeft, Nat.testBit_shiftRight, Nat.testBit_mod_two_pow]
  by_cases hi : i < k
  · simp [hi, Nat.not_le.mpr hi]
  · have hle : k ≤ i := not_lt.mp hi
    simp [hi, hle, Nat.add_sub_cancel' hle]

section
variable {F : Type*} [Field F] [CharP F 2] {β : F}

omit [CharP F 2] in
theorem evalBits_shiftLeft (β : F) (v k : ℕ) : evalBits β (v <<< k) = β ^ k * evalBits β v := by
  induction k with
  | zero => simp
  | succ k ih => rw [Nat.shiftLeft_add, evalBits_shiftLeft_one, ih, pow_succ', mul_assoc]

/-- Adding the constant term of the polynomial and shifting is dividing by the root. -/
theorem root_mul_feedback (hroot : evalBits β crc32Poly = 0) :
    β * evalBits β 0xEDB88320 = 1 := by
  have hsplit : crc32Poly = 0xEDB88320 <<< 1 ^^^ 1 := rfl
  rw [hsplit, evalBits_xor, evalBits_shiftLeft_one, evalBits_one] at hroot
  exact CharTwo.add_eq_zero.mp hroot

/-- **A shift of the register divides by the root.** -/
theorem evalBits_crc32Shift (hroot : evalBits β crc32Poly = 0) (crc : BitVec 32) :
    β * evalBits β (crc32Shift crc).toNat = evalBits β crc.toNat := by
  have hlsb : crc.getLsbD 0 = crc.toNat.testBit 0 := rfl
  conv_rhs => rw [← split_low_bits crc.toNat 1]
  rw [evalBits_xor, evalBits_shiftLeft_one, crc32Shift, hlsb, Nat.testBit_zero, pow_one]
  rcases Nat.mod_two_eq_zero_or_one crc.toNat with hbit | hbit
  · rw [hbit, if_neg (by decide), BitVec.toNat_ushiftRight, evalBits_zero, add_zero]
  · rw [hbit, if_pos (by decide), BitVec.toNat_xor, evalBits_xor, mul_add,
      BitVec.toNat_ushiftRight, evalBits_one]
    exact congrArg _ (root_mul_feedback hroot)

theorem evalBits_iterate_crc32Shift (hroot : evalBits β crc32Poly = 0) (k : ℕ)
    (crc : BitVec 32) :
    β ^ k * evalBits β (crc32Shift^[k] crc).toNat = evalBits β crc.toNat := by
  induction k generalizing crc with
  | zero => rw [pow_zero, one_mul, Function.iterate_zero_apply]
  | succ k ih => rw [Function.iterate_succ_apply, pow_succ', mul_assoc, ih,
      evalBits_crc32Shift hroot]

/-- **A byte step**: the table divides the low byte by `β ^ 8`, moving down divides the rest. -/
theorem evalBits_crc32Step (hroot : evalBits β crc32Poly = 0) (crc : BitVec 32) (p : Byte) :
    β ^ 8 * evalBits β (crc32Step crc p).toNat
      = evalBits β crc.toNat + evalBits β p.toNat := by
  have hp : (p.setWidth 32).toNat = p.toNat := by
    rw [BitVec.toNat_setWidth]
    exact Nat.mod_eq_of_lt (by omega)
  set x := crc ^^^ p.setWidth 32 with hx
  have hxNat : x.toNat = crc.toNat ^^^ p.toNat := by rw [hx, BitVec.toNat_xor, hp]
  have hindex : (x &&& 0xFF).toNat = x.toNat % 2 ^ 8 := by
    rw [BitVec.toNat_and]
    exact Nat.and_two_pow_sub_one_eq_mod _ 8
  have hlow : β ^ 8 * evalBits β (crc32Table.getD (x &&& 0xFF).toNat 0).toNat
      = evalBits β (x.toNat % 2 ^ 8) := by
    have hlt : x.toNat % 2 ^ 8 < 256 := Nat.mod_lt _ (by decide)
    rw [hindex, crc32Table_eq _ hlt, evalBits_iterate_crc32Shift hroot, BitVec.toNat_ofNat,
      Nat.mod_eq_of_lt (hlt.trans (by decide))]
  have hhigh : (crc >>> 8).toNat = x.toNat >>> 8 := by
    have hnone : p.toNat >>> 8 = 0 := by
      rw [Nat.shiftRight_eq_div_pow]
      exact Nat.div_eq_of_lt p.isLt
    rw [BitVec.toNat_ushiftRight, hxNat, Nat.shiftRight_xor_distrib, hnone, Nat.xor_zero]
  calc β ^ 8 * evalBits β (crc32Step crc p).toNat
      = β ^ 8 * evalBits β (crc32Table.getD (x &&& 0xFF).toNat 0).toNat
        + β ^ 8 * evalBits β (crc >>> 8).toNat := by
        rw [crc32Step, BitVec.toNat_xor, evalBits_xor, mul_add]
    _ = evalBits β ((x.toNat >>> 8) <<< 8 ^^^ x.toNat % 2 ^ 8) := by
        rw [hlow, hhigh, evalBits_xor, evalBits_shiftLeft, add_comm]
    _ = evalBits β crc.toNat + evalBits β p.toNat := by
        rw [split_low_bits, hxNat, evalBits_xor]

/-! ### Messages -/

/-- A message as an element: bit `b` of byte `i` stands for `β ^ (8 * i + b)`. -/
def evalBytes (β : F) : List Byte → F
  | [] => 0
  | p :: rest => evalBits β p.toNat + β ^ 8 * evalBytes β rest

/-- **The register after a message.** -/
theorem evalBytes_run (hroot : evalBits β crc32Poly = 0) (crc : BitVec 32) (data : List Byte) :
    β ^ (8 * data.length) * evalBits β (crc32Run crc data).toNat
      = evalBits β crc.toNat + evalBytes β data := by
  induction data generalizing crc with
  | nil => simp [crc32Run, evalBytes]
  | cons p rest ih =>
    have hstep := evalBits_crc32Step hroot crc p
    calc β ^ (8 * (p :: rest).length) * evalBits β (crc32Run crc (p :: rest)).toNat
        = β ^ 8 * (β ^ (8 * rest.length)
            * evalBits β (crc32Run (crc32Step crc p) rest).toNat) := by
          rw [List.length_cons, Nat.mul_succ, pow_add]
          show _ = β ^ 8 * (_ * evalBits β (crc32Run crc (p :: rest)).toNat)
          ring
      _ = evalBits β crc.toNat + evalBytes β (p :: rest) := by
          rw [ih, mul_add, hstep, evalBytes, add_assoc]

/-- Damage adds. -/
theorem evalBytes_xor (β : F) (data err : List Byte) (hlen : err.length = data.length) :
    evalBytes β (List.zipWith (· ^^^ ·) data err) = evalBytes β data + evalBytes β err := by
  induction data generalizing err with
  | nil =>
    obtain rfl := List.length_eq_zero_iff.mp hlen
    simp [evalBytes]
  | cons p rest ih =>
    obtain ⟨e, errs, rfl⟩ := List.exists_cons_of_length_eq_add_one hlen
    rw [List.zipWith_cons_cons, evalBytes, evalBytes, evalBytes, ih errs (Nat.succ.inj hlen),
      BitVec.toNat_xor, evalBits_xor]
    ring

omit [CharP F 2] in
theorem evalBytes_append (β : F) (first second : List Byte) :
    evalBytes β (first ++ second)
      = evalBytes β first + β ^ (8 * first.length) * evalBytes β second := by
  induction first with
  | nil => simp [evalBytes]
  | cons p rest ih =>
    rw [List.cons_append, evalBytes, evalBytes, ih, List.length_cons, Nat.mul_succ, pow_add]
    ring

/-! ### Error patterns -/

/-- Bit `p` of a message, the least significant bit of each byte first. -/
def messageBit (data : List Byte) (p : ℕ) : Bool :=
  (data.getD (p / 8) 0).getLsbD (p % 8)

/-- The bits that are set. -/
def setBits (data : List Byte) : Finset ℕ :=
  (range (8 * data.length)).filter fun p => messageBit data p

theorem mem_setBits {data : List Byte} {p : ℕ} :
    p ∈ setBits data ↔ p < 8 * data.length ∧ messageBit data p = true := by
  simp [setBits]

theorem messageBit_cons_add (p : Byte) (rest : List Byte) (q : ℕ) :
    messageBit (p :: rest) (8 + q) = messageBit rest q := by
  unfold messageBit
  rw [Nat.add_div_left q (by decide), List.getD_cons_succ, Nat.add_mod_left]

/-- A sum over the bits that are set, byte by byte. -/
theorem sum_setBits_cons {M : Type*} [AddCommMonoid M] (f : ℕ → M) (p : Byte)
    (rest : List Byte) :
    ∑ q ∈ setBits (p :: rest), f q
      = ∑ q ∈ setBits [p], f q + ∑ q ∈ setBits rest, f (8 + q) := by
  have hsize : 8 * (p :: rest).length = 8 + 8 * rest.length := by
    rw [List.length_cons]
    omega
  simp only [setBits, Finset.sum_filter]
  rw [hsize, Finset.sum_range_add]
  refine congrArg₂ (· + ·) ?_ ?_
  · refine Finset.sum_congr rfl fun q hq => ?_
    have hq8 : q / 8 = 0 := Nat.div_eq_of_lt (mem_range.mp hq)
    simp [messageBit, hq8]
  · exact Finset.sum_congr rfl fun q _ => by rw [messageBit_cons_add]

theorem card_setBits_cons (p : Byte) (rest : List Byte) :
    (setBits (p :: rest)).card = (setBits [p]).card + (setBits rest).card := by
  simp only [Finset.card_eq_sum_ones]
  exact sum_setBits_cons (fun _ => 1) p rest

theorem card_setBits_append (first second : List Byte) :
    (setBits (first ++ second)).card = (setBits first).card + (setBits second).card := by
  induction first with
  | nil => simp [setBits]
  | cons p rest ih => rw [List.cons_append, card_setBits_cons, card_setBits_cons p rest, ih,
      Nat.add_assoc]

theorem card_setBits_reverse (data : List Byte) :
    (setBits data.reverse).card = (setBits data).card := by
  induction data with
  | nil => rfl
  | cons p rest ih =>
    rw [List.reverse_cons, card_setBits_append, card_setBits_cons p rest, ih, Nat.add_comm]

omit [CharP F 2] in
/-- **A pattern is the sum of the powers of its bits.** -/
theorem evalBytes_eq_sum (β : F) (data : List Byte) :
    evalBytes β data = ∑ p ∈ setBits data, β ^ p := by
  induction data with
  | nil => rfl
  | cons p rest ih =>
    have hbyte : evalBits β p.toNat = ∑ q ∈ setBits [p], β ^ q := by
      rw [evalBits_eq_sum β p.isLt, setBits, Finset.sum_filter]
      refine Finset.sum_congr rfl fun q hq => ?_
      have hq8 : q < 8 := mem_range.mp hq
      have hbit : messageBit [p] q = p.toNat.testBit q := by
        unfold messageBit
        rw [Nat.div_eq_of_lt hq8, Nat.mod_eq_of_lt hq8]
        rfl
      rw [hbit, bitVal]
      cases p.toNat.testBit q <;> simp
    rw [sum_setBits_cons, evalBytes, ih, hbyte, Finset.mul_sum]
    exact congrArg _ (Finset.sum_congr rfl fun q _ => (pow_add β 8 q).symm)

/-- A root of the polynomial, and of order `2 ^ 32 - 1`. -/
structure Crc32Root (β : F) : Prop where
  root : evalBits β crc32Poly = 0
  order : orderOf β = 2 ^ 32 - 1

theorem crc32Poly_defining : DefiningPoly 32 crc32Poly :=
  ⟨by decide, by decide, by decide⟩

omit [CharP F 2] in
theorem Crc32Root.ne_zero (h : Crc32Root β) : β ≠ 0 :=
  root_ne_zero crc32Poly_defining h.order

/-- One or two flipped bits are seen. -/
theorem Crc32Root.evalBytes_ne_zero_of_card (h : Crc32Root β) {err : List Byte}
    (hlen : 8 * err.length ≤ 2 ^ 32 - 1) (hcard : (setBits err).card = 1 ∨ (setBits err).card = 2) :
    evalBytes β err ≠ 0 := by
  rw [evalBytes_eq_sum]
  rcases hcard with hone | htwo
  · obtain ⟨p, hp⟩ := Finset.card_eq_one.mp hone
    rw [hp, Finset.sum_singleton]
    exact pow_ne_zero p h.ne_zero
  · obtain ⟨p, q, hne, hpq⟩ := Finset.card_eq_two.mp htwo
    have hlt : ∀ r ∈ setBits err, r < 2 ^ 32 - 1 := fun r hr =>
      (mem_setBits.mp hr).1.trans_le hlen
    rw [hpq, Finset.sum_pair hne]
    intro hzero
    refine hne (pow_injOn_of_order h.order (hlt p ?_) (hlt q ?_) (CharTwo.add_eq_zero.mp hzero))
    · rw [hpq]
      exact Finset.mem_insert_self p {q}
    · rw [hpq]
      exact Finset.mem_insert_of_mem (Finset.mem_singleton_self q)

/-- A burst of at most 32 bits is seen: it is a power of the root times a pattern of a register. -/
theorem Crc32Root.evalBytes_ne_zero_of_burst (h : Crc32Root β) {err : List Byte} {start : ℕ}
    (hsome : (setBits err).Nonempty) (hburst : ∀ p ∈ setBits err, start ≤ p ∧ p < start + 32) :
    evalBytes β err ≠ 0 := by
  let v := Nat.ofBits fun i : Fin 32 => decide (start + i ∈ setBits err)
  have hbit : ∀ i < 32, v.testBit i = decide (start + i ∈ setBits err) := fun i hi =>
    Nat.testBit_ofBits_lt _ i hi
  have hsum : evalBytes β err = β ^ start * evalBits β v := by
    rw [evalBytes_eq_sum, evalBits_eq_sum β (Nat.ofBits_lt_two_pow _), Finset.mul_sum]
    have himage : setBits err
        = ((range 32).filter fun i => start + i ∈ setBits err).image (start + ·) := by
      ext p
      simp only [mem_image, mem_filter, mem_range]
      constructor
      · intro hp
        obtain ⟨hle, hlt⟩ := hburst p hp
        exact ⟨p - start, ⟨by omega, by rwa [Nat.add_sub_cancel' hle]⟩, by omega⟩
      · rintro ⟨i, ⟨-, hi⟩, rfl⟩
        exact hi
    conv_lhs => rw [himage]
    rw [Finset.sum_image fun i _ j _ hij => Nat.add_left_cancel hij, Finset.sum_filter]
    refine Finset.sum_congr rfl fun i hi => ?_
    rw [hbit i (mem_range.mp hi), bitVal, pow_add]
    by_cases hin : start + i ∈ setBits err
    · rw [if_pos hin, decide_eq_true hin, if_pos rfl, one_mul]
    · rw [if_neg hin, decide_eq_false hin, if_neg Bool.false_ne_true, zero_mul, mul_zero]
  have hpos : 0 < v := by
    obtain ⟨p, hp⟩ := hsome
    obtain ⟨hle, hlt⟩ := hburst p hp
    refine Nat.pos_of_ne_zero fun hzero => ?_
    have hset := hbit (p - start) (by omega)
    rw [hzero, Nat.zero_testBit, Nat.add_sub_cancel' hle] at hset
    simp [hp] at hset
  rw [hsum]
  exact mul_ne_zero (pow_ne_zero _ h.ne_zero)
    (evalBits_ne_zero crc32Poly_defining h.root h.order hpos (Nat.ofBits_lt_two_pow _))

/-! ### Detection -/

/-- A damaged message whose CRC is off by `d`: the damage is that of `d`. -/
theorem Crc32Root.evalBytes_of_collision (h : Crc32Root β) {data err : List Byte}
    (hlen : err.length = data.length) {d : BitVec 32}
    (hcrc : crc32 (List.zipWith (· ^^^ ·) data err) = crc32 data ^^^ d) :
    evalBytes β err = β ^ (8 * data.length) * evalBits β d.toNat := by
  have hrun : crc32Run 0xFFFFFFFF (List.zipWith (· ^^^ ·) data err)
      = crc32Run 0xFFFFFFFF data ^^^ d := by
    have := congrArg (· ^^^ (0xFFFFFFFF : BitVec 32)) hcrc
    simp only [crc32, BitVec.xor_assoc, BitVec.xor_comm d, BitVec.xor_self, BitVec.xor_zero] at this
    rw [← BitVec.xor_assoc (0xFFFFFFFF : BitVec 32), BitVec.xor_self, BitVec.zero_xor] at this
    exact this
  have hsame : (List.zipWith (· ^^^ ·) data err).length = data.length := by
    rw [List.length_zipWith, hlen, min_self]
  have hdamaged := evalBytes_run h.root 0xFFFFFFFF (List.zipWith (· ^^^ ·) data err)
  have hgood := evalBytes_run h.root 0xFFFFFFFF data
  rw [hsame, hrun, BitVec.toNat_xor, evalBits_xor, mul_add, hgood, evalBytes_xor β data err hlen]
    at hdamaged
  rw [add_assoc] at hdamaged
  exact (add_left_cancel (add_left_cancel hdamaged)).symm

end

/-! ### The root -/

/-- `2 ^ 32 - 1` is the product of the five Fermat primes. -/
theorem prime_dvd_fermat {p : ℕ} (hp : p.Prime) (hdvd : p ∣ 2 ^ 32 - 1) :
    p = 3 ∨ p = 5 ∨ p = 17 ∨ p = 257 ∨ p = 65537 := by
  have hfactors : 2 ^ 32 - 1 = 3 * (5 * (17 * (257 * 65537))) := rfl
  have hsame : ∀ q, q.Prime → p ∣ q → p = q := fun q hq h =>
    (Nat.prime_dvd_prime_iff_eq hp hq).mp h
  rw [hfactors] at hdvd
  obtain h | h := hp.dvd_mul.mp hdvd
  · exact Or.inl (hsame 3 (by norm_num) h)
  obtain h | h := hp.dvd_mul.mp h
  · exact Or.inr (Or.inl (hsame 5 (by norm_num) h))
  obtain h | h := hp.dvd_mul.mp h
  · exact Or.inr (Or.inr (Or.inl (hsame 17 (by norm_num) h)))
  obtain h | h := hp.dvd_mul.mp h
  · exact Or.inr (Or.inr (Or.inr (Or.inl (hsame 257 (by norm_num) h))))
  · exact Or.inr (Or.inr (Or.inr (Or.inr (hsame 65537 (by norm_num) h))))

/-- **The polynomial is primitive.** -/
theorem crc32Poly_cert : PrimitiveCert 32 crc32Poly := by
  refine ⟨crc32Poly_defining, by decide +kernel, fun p hp hdvd => ?_⟩
  rcases prime_dvd_fermat hp hdvd with rfl | rfl | rfl | rfl | rfl
  · decide +kernel
  · decide +kernel
  · decide +kernel
  · decide +kernel
  · decide +kernel

theorem exists_crc32Root : ∃ β : AlgebraicClosure (ZMod 2), Crc32Root β := by
  obtain ⟨β, hroot⟩ := exists_evalBits_eq_zero (F := AlgebraicClosure (ZMod 2)) crc32Poly_defining
  exact ⟨β, hroot, orderOf_of_cert crc32Poly_cert hroot⟩

end OpenVlsnr
