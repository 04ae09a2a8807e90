import OpenVlsnr.ListGetD
import OpenVlsnr.Scrambler
import OpenVlsnr.ShiftSequence
import Mathlib.Data.ZMod.Basic

/-!
# The scrambler is the Gold sequence (`scrambler.c`)

The standard's sequences `x` and `y` (`goldX`, `goldY`) and their sums `z_n` (`goldZ`).  A register
of the scrambler holds eighteen consecutive entries (`RegHolds`); its taps read sums of them, and
the two masks `0x8050` and `0xFF60` are the patterns of the 131072nd power of each root, so they
read the sequences 131072 positions ahead without advancing.

* `scramblerNextRn_spec` - one call, by register;
* `scramblerRns_gold` - the values of any number of calls;
* `goldIndices_differ` - two accepted indices are told apart by any eighteen values.
-/

namespace OpenVlsnr

open Finset

/-! ### The standard's sequences -/

/-- `x(0) = 1`, `x(1..17) = 0`, `x(i + 18) = x(i + 7) + x(i)`. -/
def goldX (i : ℕ) : ZMod 2 :=
  if i < 18 then (if i = 0 then 1 else 0) else goldX (i - 11) + goldX (i - 18)
termination_by i

/-- `y(0..17) = 1`, `y(i + 18) = y(i + 10) + y(i + 7) + y(i + 5) + y(i)`. -/
def goldY (i : ℕ) : ZMod 2 :=
  if i < 18 then 1 else goldY (i - 8) + goldY (i - 11) + goldY (i - 13) + goldY (i - 18)
termination_by i

abbrev goldPeriod : ℕ := 2 ^ 18 - 1

/-- `z_n(i)`. -/
def goldZ (n i : ℕ) : ZMod 2 := goldX ((i + n) % goldPeriod) + goldY (i % goldPeriod)

theorem goldX_low {i : ℕ} (hi : i < 18) : goldX i = if i = 0 then 1 else 0 := by
  rw [goldX, if_pos hi]

theorem goldX_add (i : ℕ) : goldX (i + 18) = goldX (i + 7) + goldX i := by
  rw [goldX, if_neg (by omega)]
  rfl

theorem goldY_low {i : ℕ} (hi : i < 18) : goldY i = 1 := by
  rw [goldY, if_pos hi]

theorem goldY_add (i : ℕ) :
    goldY (i + 18) = goldY (i + 10) + goldY (i + 7) + goldY (i + 5) + goldY i := by
  rw [goldY, if_neg (by omega)]
  rfl

/-! ### The two polynomials -/

/-- `x^18 + x^7 + 1`. -/
abbrev goldPolyX : ℕ := 0x40081

/-- `x^18 + x^10 + x^7 + x^5 + 1`. -/
abbrev goldPolyY : ℕ := 0x404A1

theorem goldX_recurrent : Recurrent goldPolyX goldX := by
  intro i
  have htaps : goldPolyX = 2 ^ 18 ^^^ 2 ^ 7 ^^^ 2 ^ 0 := by decide
  rw [htaps, tapSum_xor, tapSum_xor, tapSum_two_pow, tapSum_two_pow, tapSum_two_pow, goldX_add,
    Nat.add_zero]
  linear_combination CharTwo.add_self_eq_zero (goldX (i + 7) + goldX i)

theorem goldY_recurrent : Recurrent goldPolyY goldY := by
  intro i
  have htaps : goldPolyY = 2 ^ 18 ^^^ 2 ^ 10 ^^^ 2 ^ 7 ^^^ 2 ^ 5 ^^^ 2 ^ 0 := by decide
  rw [htaps, tapSum_xor, tapSum_xor, tapSum_xor, tapSum_xor, tapSum_two_pow, tapSum_two_pow,
    tapSum_two_pow, tapSum_two_pow, tapSum_two_pow, goldY_add, Nat.add_zero]
  linear_combination
    CharTwo.add_self_eq_zero (goldY (i + 10) + goldY (i + 7) + goldY (i + 5) + goldY i)

/-- The taps of the two registers are the polynomials without their top. -/
theorem goldX_taps : Recurrent (2 ^ 18 ^^^ 0x0081) goldX := goldX_recurrent

theorem goldY_taps : Recurrent (2 ^ 18 ^^^ 0x04A1) goldY := goldY_recurrent

/-- The prime factors of the period. -/
theorem prime_dvd_goldPeriod {p : ℕ} (hp : p.Prime) (hdvd : p ∣ goldPeriod) :
    p = 3 ∨ p = 7 ∨ p = 19 ∨ p = 73 := by
  have hsame : ∀ q : ℕ, q.Prime → p ∣ q → p = q := fun q hq h =>
    (Nat.prime_dvd_prime_iff_eq hp hq).mp h
  have hfactors : goldPeriod = 3 ^ 3 * (7 * (19 * 73)) := by decide
  rw [hfactors] at hdvd
  obtain h | h := (Nat.Prime.dvd_mul hp).mp hdvd
  · exact Or.inl (hsame 3 (by norm_num) (hp.dvd_of_dvd_pow h))
  obtain h | h := (Nat.Prime.dvd_mul hp).mp h
  · exact Or.inr (Or.inl (hsame 7 (by norm_num) h))
  obtain h | h := (Nat.Prime.dvd_mul hp).mp h
  · exact Or.inr (Or.inr (Or.inl (hsame 19 (by norm_num) h)))
  · exact Or.inr (Or.inr (Or.inr (hsame 73 (by norm_num) h)))

/-- **Both polynomials are primitive.** -/
theorem goldPolyX_cert : PrimitiveCert 18 goldPolyX := by
  refine ⟨⟨by decide, by decide, by decide⟩, by decide +kernel, fun p hp hdvd => ?_⟩
  rcases prime_dvd_goldPeriod hp hdvd with rfl | rfl | rfl | rfl
  · decide +kernel
  · decide +kernel
  · decide +kernel
  · decide +kernel

theorem goldPolyY_cert : PrimitiveCert 18 goldPolyY := by
  refine ⟨⟨by decide, by decide, by decide⟩, by decide +kernel, fun p hp hdvd => ?_⟩
  rcases prime_dvd_goldPeriod hp hdvd with rfl | rfl | rfl | rfl
  · decide +kernel
  · decide +kernel
  · decide +kernel
  · decide +kernel

/-- **The masks of the delayed sequence** are the 131072nd powers of the roots. -/
theorem tapSum_goldX_delayed (i : ℕ) : tapSum goldX 0x8050 i = goldX (i + 131072) := by
  have hmask : expPattern 18 goldPolyX 131072 = 0x8050 := by
    rw [expPattern_eq_powPattern goldPolyX_cert (by decide)]
    decide +kernel
  rw [← hmask, goldX_recurrent.tapSum_expPattern]

theorem tapSum_goldY_delayed (i : ℕ) : tapSum goldY 0xFF60 i = goldY (i + 131072) := by
  have hmask : expPattern 18 goldPolyY 131072 = 0xFF60 := by
    rw [expPattern_eq_powPattern goldPolyY_cert (by decide)]
    decide +kernel
  rw [← hmask, goldY_recurrent.tapSum_expPattern]

/-! ### Registers -/

/-- The register holds the entries `t, ..., t + 17` of the sequence. -/
structure RegHolds (s : ℕ → ZMod 2) (t : ℕ) (reg : BitVec 32) : Prop where
  low : ∀ j < 18, bitVal (ZMod 2) (reg.getLsbD j) = s (t + j)
  high : ∀ j, 18 ≤ j → reg.getLsbD j = false

/-- The sum of the low `w` bits. -/
def bitSum (v : BitVec 32) (w : ℕ) : ZMod 2 := ∑ j ∈ range w, bitVal (ZMod 2) (v.getLsbD j)

/-- Folding a register in half keeps the sum. -/
theorem bitSum_fold (v : BitVec 32) (w : ℕ) : bitSum (v ^^^ (v >>> w)) w = bitSum v (w + w) := by
  rw [bitSum, bitSum, Finset.sum_range_add, ← Finset.sum_add_distrib]
  refine Finset.sum_congr rfl fun j _ => ?_
  rw [BitVec.getLsbD_xor, BitVec.getLsbD_ushiftRight, bitVal_xor]

theorem and_one_toNat (v : BitVec 32) : (v &&& 1#32).toNat = (v.getLsbD 0).toNat := by
  rw [BitVec.toNat_and, show (1#32).toNat = 1 from rfl, Nat.and_one_is_mod, BitVec.getLsbD,
    Nat.testBit_zero]
  rcases Nat.mod_two_eq_zero_or_one v.toNat with h | h <;> rw [h] <;> rfl

theorem cast_toNat (b : Bool) : ((b.toNat : ℕ) : ZMod 2) = bitVal (ZMod 2) b := by
  cases b <;> rfl

theorem parityChk_lt (a b : BitVec 32) : parityChk a b < 2 := by
  unfold parityChk
  dsimp only
  rw [and_one_toNat]
  exact Bool.toNat_lt _

/-- **The parity check** is the sum of all bits of `a & b`. -/
theorem parityChk_cast (a b : BitVec 32) :
    ((parityChk a b : ℕ) : ZMod 2) = bitSum (a &&& b) 32 := by
  have hone : ∀ v : BitVec 32, (((v &&& 1#32).toNat : ℕ) : ZMod 2) = bitSum v 1 := fun v => by
    rw [and_one_toNat, cast_toNat, bitSum, Finset.sum_range_one]
  unfold parityChk
  dsimp only
  rw [hone, bitSum_fold, bitSum_fold, bitSum_fold, bitSum_fold, bitSum_fold]

section Reg
variable {s : ℕ → ZMod 2} {t : ℕ} {reg : BitVec 32}

/-- A tap mask reads a sum of entries. -/
theorem RegHolds.parityChk (h : RegHolds s t reg) {mask : ℕ} (hmask : mask < 2 ^ 18) :
    ((parityChk reg (BitVec.ofNat 32 mask) : ℕ) : ZMod 2) = tapSum s mask t := by
  have hbits : ∀ j, (reg &&& BitVec.ofNat 32 mask).getLsbD j
      = (reg.getLsbD j && mask.testBit j) := fun j => by
    rw [BitVec.getLsbD_and, BitVec.getLsbD_ofNat]
    by_cases hj : j < 32
    · simp [hj]
    · simp [hj, h.high j (by omega)]
  have hsplit : bitSum (reg &&& BitVec.ofNat 32 mask) 32
      = bitSum (reg &&& BitVec.ofNat 32 mask) 18 := by
    refine (Finset.sum_subset (range_subset_range.mpr (by decide)) fun j _ hj => ?_).symm
    rw [hbits, h.high j (not_lt.mp fun hlt => hj (mem_range.mpr hlt))]
    rfl
  rw [parityChk_cast, hsplit, tapSum_eq_sum s hmask]
  refine Finset.sum_congr rfl fun j hj => ?_
  rw [hbits, ← h.low j (mem_range.mp hj)]
  cases reg.getLsbD j <;> cases mask.testBit j <;> rfl

theorem RegHolds.bit_zero (h : RegHolds s t reg) :
    (((reg &&& 1#32).toNat : ℕ) : ZMod 2) = s t := by
  rw [and_one_toNat, cast_toNat, h.low 0 (by decide), Nat.add_zero]

/-- A register one place on, with the next entry on top. -/
theorem RegHolds.shift {reg' : BitVec 32} {b : Bool} (h : RegHolds s t reg)
    (hbits : ∀ j, reg'.getLsbD j = (reg.getLsbD (j + 1) || (decide (j = 17) && b)))
    (hb : bitVal (ZMod 2) b = s (t + 18)) : RegHolds s (t + 1) reg' := by
  constructor
  · intro j hj
    rw [hbits]
    obtain hlt | rfl := Nat.lt_or_eq_of_le (Nat.le_of_lt_succ hj)
    · rw [decide_eq_false (by omega), Bool.false_and, Bool.or_false, h.low (j + 1) (by omega),
        Nat.add_assoc, Nat.add_comm 1 j]
    · rw [h.high 18 le_rfl, Bool.false_or, decide_eq_true rfl, Bool.true_and, hb, Nat.add_assoc]
  · intro j hj
    rw [hbits, h.high (j + 1) (by omega), decide_eq_false (by omega)]
    rfl

theorem getLsbD_scramblerShift (reg : BitVec 32) (bit j : ℕ) :
    (scramblerShift reg bit).getLsbD j
      = (reg.getLsbD (j + 1) || (decide (j = 17) && decide (bit ≠ 0))) := by
  have htop : (0x20000#32).getLsbD j = decide (j = 17) := by
    rw [BitVec.getLsbD_ofNat, show 0x20000 = 2 ^ 17 by decide, Nat.testBit_two_pow]
    by_cases hj : j = 17
    · simp [hj]
    · simp [hj, Ne.symm hj]
  unfold scramblerShift
  split
  · rename_i hbit
    rw [BitVec.getLsbD_or, BitVec.getLsbD_ushiftRight, htop, decide_eq_true hbit, Bool.and_true,
      Nat.add_comm]
  · rename_i hbit
    rw [BitVec.getLsbD_ushiftRight, decide_eq_false hbit, Bool.and_false, Bool.or_false,
      Nat.add_comm]

/-- The stepper of `dvbs2x_scrambler_next_rn`. -/
theorem RegHolds.scramblerShift {taps : ℕ} (h : RegHolds s t reg)
    (hs : Recurrent (2 ^ 18 ^^^ taps) s) (htaps : taps < 2 ^ 18) :
    RegHolds s (t + 1)
      (scramblerShift reg (OpenVlsnr.parityChk reg (BitVec.ofNat 32 taps))) := by
  refine h.shift (getLsbD_scramblerShift _ _) ?_
  rw [← hs.feedback, ← h.parityChk htaps, ← cast_toNat]
  have hlt := parityChk_lt reg (BitVec.ofNat 32 taps)
  interval_cases OpenVlsnr.parityChk reg (BitVec.ofNat 32 taps) <;> rfl

end Reg

/-- The stepper of `dvbs2x_scrambler_init`, which taps bits 0 and 7 by a shift. -/
theorem RegHolds.initShift {t : ℕ} {x : BitVec 32} (h : RegHolds goldX t x) :
    RegHolds goldX (t + 1) ((((x ^^^ (x >>> 7)) &&& 1#32) <<< 17) ||| (x >>> 1)) := by
  refine h.shift (b := x.getLsbD 0 ^^ x.getLsbD 7) (fun j => ?_) ?_
  · have hlow : ((x ^^^ (x >>> 7)) &&& 1#32).getLsbD (j - 17)
        = (decide (j - 17 = 0) && (x.getLsbD 0 ^^ x.getLsbD 7)) := by
      rw [BitVec.getLsbD_and, BitVec.getLsbD_one]
      by_cases hj : j - 17 = 0
      · simp [hj]
      · simp [hj]
    rw [BitVec.getLsbD_or, BitVec.getLsbD_shiftLeft, hlow, BitVec.getLsbD_ushiftRight,
      Nat.add_comm 1 j, Bool.or_comm]
    congr 1
    by_cases hj : j = 17
    · simp [hj]
    · by_cases hlt : j < 17
      · simp [hlt, hj]
      · simp [show ¬j - 17 = 0 by omega, hj]
  · rw [bitVal_xor, h.low 0 (by decide), h.low 7 (by decide), goldX_add, Nat.add_zero, add_comm]

/-! ### Calls -/

/-- The registers after seeding with index `n` and `i` calls. -/
structure ScramblerAt (n i : ℕ) (scr : Scrambler) : Prop where
  x : RegHolds goldX (i + n) scr.xReg
  y : RegHolds goldY i scr.yReg

theorem ScramblerAt.init (n : ℕ) : ScramblerAt n 0 (scramblerInit n) := by
  constructor
  · show RegHolds goldX (0 + n) ((List.range n).foldl _ 1#32)
    rw [Nat.zero_add]
    induction n with
    | zero =>
      refine ⟨fun j hj => ?_, fun j hj => ?_⟩
      · rw [List.range_zero, List.foldl_nil, BitVec.getLsbD_one, Nat.zero_add, goldX_low hj, bitVal]
        simp
      · rw [List.range_zero, List.foldl_nil, BitVec.getLsbD_one]
        simp only [show (0 : ℕ) < 32 by decide, decide_true, Bool.true_and, decide_eq_false_iff_not]
        omega
    | succ n ih =>
      rw [List.range_succ, List.foldl_append, List.foldl_cons, List.foldl_nil]
      exact ih.initShift
  · have hones : ∀ j, (0x3ffff#32).getLsbD j = decide (j < 18) := fun j => by
      rw [BitVec.getLsbD_ofNat, show 0x3ffff = 2 ^ 18 - 1 by decide, Nat.testBit_two_pow_sub_one]
      by_cases hj : j < 18
      · simp [hj, show j < 32 by omega]
      · simp [hj]
    refine ⟨fun j hj => ?_, fun j hj => ?_⟩
    · rw [show (scramblerInit n).yReg = 0x3ffff#32 from rfl, hones, decide_eq_true hj,
        Nat.zero_add, goldY_low hj]
      rfl
    · rw [show (scramblerInit n).yReg = 0x3ffff#32 from rfl, hones, decide_eq_false (by omega)]

/-- The exclusive or of two parities. -/
theorem xor_eq_val {a b : ℕ} (ha : a < 2) (hb : b < 2) :
    a ^^^ b = ((a : ZMod 2) + (b : ZMod 2)).val := by
  interval_cases a <;> interval_cases b <;> rfl

/-- **One call**: the value, and the registers one place on. -/
theorem scramblerNextRn_spec {n i : ℕ} {scr : Scrambler} (h : ScramblerAt n i scr) :
    (scramblerNextRn scr).1
        = 2 * (goldX (i + n + 131072) + goldY (i + 131072)).val + (goldX (i + n) + goldY i).val ∧
      ScramblerAt n (i + 1) (scramblerNextRn scr).2 := by
  constructor
  · have hx : ((parityChk scr.xReg 0x8050#32 : ℕ) : ZMod 2) = goldX (i + n + 131072) := by
      rw [← tapSum_goldX_delayed]
      exact h.x.parityChk (by decide)
    have hy : ((parityChk scr.yReg 0xFF60#32 : ℕ) : ZMod 2) = goldY (i + 131072) := by
      rw [← tapSum_goldY_delayed]
      exact h.y.parityChk (by decide)
    have hdelayed : parityChk scr.xReg 0x8050#32 ^^^ parityChk scr.yReg 0xFF60#32
        = (goldX (i + n + 131072) + goldY (i + 131072)).val := by
      rw [xor_eq_val (parityChk_lt _ _) (parityChk_lt _ _), hx, hy]
    have hdirect : (scr.xReg &&& 1#32).toNat ^^^ (scr.yReg &&& 1#32).toNat
        = (goldX (i + n) + goldY i).val := by
      have hlt : ∀ v : BitVec 32, (v &&& 1#32).toNat < 2 := fun v => by
        rw [and_one_toNat]
        exact Bool.toNat_lt _
      rw [xor_eq_val (hlt _) (hlt _), h.x.bit_zero, h.y.bit_zero]
    show (parityChk scr.xReg 0x8050#32 ^^^ parityChk scr.yReg 0xFF60#32) <<< 1
      + ((scr.xReg &&& 1#32).toNat ^^^ (scr.yReg &&& 1#32).toNat) = _
    rw [hdelayed, hdirect, Nat.shiftLeft_eq, pow_one, Nat.mul_comm]
  · constructor
    · show RegHolds goldX (i + 1 + n) (scramblerShift scr.xReg (parityChk scr.xReg 0x0081#32))
      rw [Nat.add_right_comm]
      exact h.x.scramblerShift goldX_taps (by decide)
    · exact h.y.scramblerShift goldY_taps (by decide)

/-- The values of the next `count` calls. -/
def scramblerRns : Scrambler → ℕ → List ℕ
  | _, 0 => []
  | scr, count + 1 =>
      let r := scramblerNextRn scr
      r.1 :: scramblerRns r.2 count

theorem scramblerRns_spec {n i : ℕ} {scr : Scrambler} (h : ScramblerAt n i scr) (count : ℕ) :
    scramblerRns scr count = (List.range count).map fun j =>
      2 * (goldX (i + j + n + 131072) + goldY (i + j + 131072)).val
        + (goldX (i + j + n) + goldY (i + j)).val := by
  induction count generalizing i scr with
  | zero => rfl
  | succ count ih =>
    obtain ⟨hrn, hnext⟩ := scramblerNextRn_spec h
    rw [scramblerRns, List.range_succ_eq_map, List.map_cons, List.map_map, hrn, ih hnext]
    refine congrArg _ (List.map_congr_left fun j _ => ?_)
    rw [Function.comp_apply, Nat.succ_eq_add_one, Nat.add_assoc i 1 j, Nat.add_comm 1 j]

/-- Seeking is calling and dropping the values. -/
theorem ScramblerAt.seek {n i : ℕ} {scr : Scrambler} (h : ScramblerAt n i scr) (m : ℕ) :
    ScramblerAt n (i + m) (scramblerSeek scr m) := by
  unfold scramblerSeek
  induction m with
  | zero => exact h
  | succ m ih =>
    rw [List.range_succ, List.foldl_append, List.foldl_cons, List.foldl_nil]
    exact (scramblerNextRn_spec ih).2

/-! ### The Gold sequence -/

/-- The sums taken within the period. -/
theorem goldZ_eq (n i : ℕ) : goldZ n i = goldX (i + n) + goldY i := by
  rw [goldZ, goldX_recurrent.mod_period goldPolyX_cert, goldY_recurrent.mod_period goldPolyY_cert]

theorem goldZ_mod (n i : ℕ) : goldZ n (i % goldPeriod) = goldX (i + n) + goldY i := by
  rw [goldZ_eq, goldY_recurrent.mod_period goldPolyY_cert]
  exact congrArg (· + _) (goldX_recurrent.eq_of_modEq goldPolyX_cert
    ((Nat.mod_modEq i goldPeriod).add_right n))

/-- **The scrambler produces the Gold sequence** of its index, and seeking skips values of it. -/
theorem scramblerRns_gold (n : ℕ) :
    (∀ count, scramblerRns (scramblerInit n) count = (List.range count).map fun i =>
        2 * (goldZ n ((i + 131072) % goldPeriod)).val + (goldZ n i).val) ∧
      ∀ m, (scramblerNextRn (scramblerSeek (scramblerInit n) m)).1
        = (scramblerRns (scramblerInit n) (m + 1)).getD m 0 := by
  have hrns : ∀ count, scramblerRns (scramblerInit n) count = (List.range count).map fun i =>
      2 * (goldX (i + n + 131072) + goldY (i + 131072)).val + (goldX (i + n) + goldY i).val := by
    intro count
    rw [scramblerRns_spec (.init n) count]
    simp only [Nat.zero_add]
  refine ⟨fun count => ?_, fun m => ?_⟩
  · rw [hrns]
    refine List.map_congr_left fun i _ => ?_
    rw [goldZ_mod, goldZ_eq, Nat.add_right_comm i n]
  · rw [hrns, getD_map_range, if_pos (Nat.lt_succ_self m),
      (scramblerNextRn_spec ((ScramblerAt.init n).seek m)).1, Nat.zero_add]

/-! ### Different indices -/

/-- Any eighteen entries of `x` tell the index. -/
theorem goldX_window {g₁ g₂ : ℕ} (h₁ : g₁ ≤ goldCodeMax) (h₂ : g₂ ≤ goldCodeMax) (s : ℕ)
    (hsame : ∀ j < 18, goldX (s + g₁ + j) = goldX (s + g₂ + j)) : g₁ = g₂ := by
  have hne : ∃ i, goldX i ≠ 0 := ⟨0, by rw [goldX_low (by decide)]; decide⟩
  have hmod : s + g₁ ≡ s + g₂ [MOD goldPeriod] :=
    goldX_recurrent.window_position goldPolyX_cert hne hsame
  have hcancel : g₁ ≡ g₂ [MOD goldPeriod] := Nat.ModEq.add_left_cancel' s hmod
  exact hcancel.eq_of_lt_of_lt (lt_of_le_of_lt h₁ (by decide)) (lt_of_le_of_lt h₂ (by decide))

/-- Payload that is not QPSK is negated by the low bit alone. -/
theorem scrambleSymbol_ne {rn₁ rn₂ : ℕ} (hbit : rn₁ % 2 ≠ rn₂ % 2) {symbol : Cplx ℚ}
    (hsymbol : symbol ≠ 0) :
    scrambleSymbol false rn₁ symbol ≠ scrambleSymbol false rn₂ symbol := by
  have hneg : (⟨-symbol.i, -symbol.q⟩ : Cplx ℚ) ≠ symbol := by
    intro h
    have hi : -symbol.i = symbol.i := congrArg Cplx.i h
    have hq : -symbol.q = symbol.q := congrArg Cplx.q h
    exact hsymbol (Cplx.ext (by linarith : symbol.i = 0) (by linarith : symbol.q = 0))
  have hmod : rn₁ % 2 = 1 ∧ rn₂ % 2 ≠ 1 ∨ rn₁ % 2 ≠ 1 ∧ rn₂ % 2 = 1 := by omega
  simp only [scrambleSymbol, Bool.false_eq_true, if_false]
  obtain ⟨h₁, h₂⟩ | ⟨h₁, h₂⟩ := hmod
  · rw [if_pos h₁, if_neg h₂]
    exact hneg
  · rw [if_neg h₁, if_pos h₂]
    exact hneg.symm

/-- **Accepted indices never collide.**  From any position on, the values for two different indices
differ within eighteen symbols in their low bit; on payload that is not QPSK, only that bit counts,
and such a symbol is scrambled differently. -/
theorem goldIndices_differ {g₁ g₂ : ℕ} (h₁ : g₁ ≤ goldCodeMax) (h₂ : g₂ ≤ goldCodeMax)
    (hne : g₁ ≠ g₂) (s : ℕ) :
    ∃ j < 18,
      let rn₁ := (scramblerRns (scramblerSeek (scramblerInit g₁) s) 18).getD j 0
      let rn₂ := (scramblerRns (scramblerSeek (scramblerInit g₂) s) 18).getD j 0
      rn₁ % 2 ≠ rn₂ % 2 ∧
        ∀ symbol : Cplx ℚ, symbol ≠ 0 →
          scrambleSymbol false rn₁ symbol ≠ scrambleSymbol false rn₂ symbol := by
  have hlow : ∀ g, ∀ j < 18,
      (scramblerRns (scramblerSeek (scramblerInit g) s) 18).getD j 0 % 2
        = (goldX (s + g + j) + goldY (s + j)).val := by
    intro g j hj
    have hat : ScramblerAt g s (scramblerSeek (scramblerInit g) s) := by
      simpa only [Nat.zero_add] using (ScramblerAt.init g).seek s
    rw [scramblerRns_spec hat 18, getD_map_range, if_pos hj, Nat.mul_add_mod,
      Nat.add_right_comm s j g]
    exact Nat.mod_eq_of_lt (ZMod.val_lt _)
  obtain ⟨j, hj, hx⟩ : ∃ j < 18, goldX (s + g₁ + j) ≠ goldX (s + g₂ + j) := by
    by_contra hall
    push Not at hall
    exact hne (goldX_window h₁ h₂ s hall)
  refine ⟨j, hj, ?_⟩
  have hbit : (scramblerRns (scramblerSeek (scramblerInit g₁) s) 18).getD j 0 % 2
      ≠ (scramblerRns (scramblerSeek (scramblerInit g₂) s) 18).getD j 0 % 2 := by
    rw [hlow g₁ j hj, hlow g₂ j hj]
    exact fun h => hx (add_right_cancel (ZMod.val_injective 2 h))
  exact ⟨hbit, fun symbol hsymbol => scrambleSymbol_ne hbit hsymbol⟩

/-- The lowest and the highest accepted index. -/
theorem goldIndices_differ_ends :
    ∃ j < 18, (scramblerRns (scramblerSeek (scramblerInit 0) 900) 18).getD j 0 % 2
      ≠ (scramblerRns (scramblerSeek (scramblerInit goldCodeMax) 900) 18).getD j 0 % 2 := by
  obtain ⟨j, hj, hbit, -⟩ := goldIndices_differ (Nat.zero_le goldCodeMax) le_rfl (by decide) 900
  exact ⟨j, hj, hbit⟩

end OpenVlsnr
