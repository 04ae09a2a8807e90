import Mathlib.Analysis.SpecialFunctions.Trigonometric.Basic
import OpenVlsnr.ListGetD
import OpenVlsnr.Radix2
import OpenVlsnr.Scrambler

/-!
# The transform of the header search (`sync_fft`)

The complex numbers of the code are a ring; over it `sync_fft` is the in-place radix-2 transform.
Its counter `j` runs through the bit-reversed indices (`reverseCarry_rev`), so the swaps put the
input in that order (`bitReverse_spec`); a pass over the blocks is a stage (`fftBlocks_spec`); and
all passes give the transform (`syncFft_forward`, `syncFft_inverse`) for every power of two up to
`2 ^ 30`.  At `2 ^ 31` the width of the stages wraps to zero and the loop never ends
(`syncFft_stuck`).
-/

namespace OpenVlsnr

open Finset Radix2

/-! ### Complex arithmetic -/

section
variable {R : Type*} [CommRing R]

instance : One (Cplx R) := ⟨⟨1, 0⟩⟩
instance : Add (Cplx R) := ⟨fun a b => ⟨a.i + b.i, a.q + b.q⟩⟩
instance : Sub (Cplx R) := ⟨fun a b => ⟨a.i - b.i, a.q - b.q⟩⟩
instance : Neg (Cplx R) := ⟨fun a => ⟨-a.i, -a.q⟩⟩
instance : Mul (Cplx R) := ⟨fun a b => ⟨a.i * b.i - a.q * b.q, a.i * b.q + a.q * b.i⟩⟩

namespace Cplx

@[simp] theorem zero_i : (0 : Cplx R).i = 0 := rfl
@[simp] theorem zero_q : (0 : Cplx R).q = 0 := rfl
@[simp] theorem one_i : (1 : Cplx R).i = 1 := rfl
@[simp] theorem one_q : (1 : Cplx R).q = 0 := rfl
@[simp] theorem add_i (a b : Cplx R) : (a + b).i = a.i + b.i := rfl
@[simp] theorem add_q (a b : Cplx R) : (a + b).q = a.q + b.q := rfl
@[simp] theorem sub_i (a b : Cplx R) : (a - b).i = a.i - b.i := rfl
@[simp] theorem sub_q (a b : Cplx R) : (a - b).q = a.q - b.q := rfl
@[simp] theorem neg_i (a : Cplx R) : (-a).i = -a.i := rfl
@[simp] theorem neg_q (a : Cplx R) : (-a).q = -a.q := rfl
@[simp] theorem mul_i (a b : Cplx R) : (a * b).i = a.i * b.i - a.q * b.q := rfl
@[simp] theorem mul_q (a b : Cplx R) : (a * b).q = a.i * b.q + a.q * b.i := rfl

end Cplx

instance : CommRing (Cplx R) where
  add_assoc a b c := by ext <;> simp [add_assoc]
  zero_add a := by ext <;> simp
  add_zero a := by ext <;> simp
  add_comm a b := by ext <;> simp [add_comm]
  mul_assoc a b c := by ext <;> simp <;> ring
  one_mul a := by ext <;> simp
  mul_one a := by ext <;> simp
  zero_mul a := by ext <;> simp
  mul_zero a := by ext <;> simp
  mul_comm a b := by ext <;> simp <;> ring
  left_distrib a b c := by ext <;> simp <;> ring
  right_distrib a b c := by ext <;> simp <;> ring
  neg_add_cancel a := by ext <;> simp
  sub_eq_add_neg a b := by ext <;> simp [sub_eq_add_neg]
  nsmul := nsmulRec
  zsmul := zsmulRec

@[simp] theorem Cplx.natCast_i (n : ℕ) : (n : Cplx R).i = n := by
  induction n with
  | zero => simp
  | succ n ih => simp [ih]

@[simp] theorem Cplx.natCast_q (n : ℕ) : (n : Cplx R).q = 0 := by
  induction n with
  | zero => simp
  | succ n ih => simp [ih]

end

theorem Cplx.natCast_mul_cancel {n : ℕ} (hn : n ≠ 0) {a b : Cplx ℝ}
    (h : (n : Cplx ℝ) * a = n * b) : a = b := by
  have hne : (n : ℝ) ≠ 0 := Nat.cast_ne_zero.mpr hn
  have hi := congrArg Cplx.i h
  have hq := congrArg Cplx.q h
  simp only [Cplx.mul_i, Cplx.mul_q, Cplx.natCast_i, Cplx.natCast_q, zero_mul, sub_zero,
    add_zero] at hi hq
  exact Cplx.ext (mul_left_cancel₀ hne hi) (mul_left_cancel₀ hne hq)

/-! ### The code -/

/-- What the header search uses of `math.h`. -/
structure SyncMath (R : Type*) where
  pi : R
  cos : R → R
  sin : R → R
  sqrt : R → R

/-- The exact functions. -/
noncomputable def SyncMath.exact : SyncMath ℝ where
  pi := Real.pi
  cos := Real.cos
  sin := Real.sin
  sqrt := Real.sqrt

/-- The `while` loop over `bit` and the assignment behind it. -/
def reverseCarry (j bit : ℕ) : ℕ :=
  if _h : j &&& bit ≠ 0 then reverseCarry (j ^^^ bit) (bit >>> 1) else j ^^^ bit
termination_by bit
decreasing_by
  have hbit : bit ≠ 0 := fun hz => _h (by rw [hz, Nat.and_zero])
  rw [Nat.shiftRight_one]
  omega

section
variable {R : Type*} [Field R] (math : SyncMath R)

/-- Round `i` of the reordering loop: the data and `j`. -/
def reverseRound (len : ℕ) (s : List (Cplx R) × ℕ) (i : ℕ) : List (Cplx R) × ℕ :=
  let j := reverseCarry s.2 (len >>> 1)
  (if i < j then (s.1.set i (s.1.getD j 0)).set j (s.1.getD i 0) else s.1, j)

def bitReverse (len : ℕ) (data : List (Cplx R)) : List (Cplx R) :=
  ((List.range' 1 (len - 1)).foldl (reverseRound len) (data, 0)).1

/-- `step_i` and `step_q`. -/
def fftStep (inverse : Bool) (width : ℕ) : Cplx R :=
  let angle := (if inverse then 2 else -2) * math.pi / (width : R)
  ⟨math.cos angle, math.sin angle⟩

/-- One butterfly: the data and the twiddle factor. -/
def fftButterfly (step : Cplx R) (half base : ℕ) (s : List (Cplx R) × Cplx R) (n : ℕ) :
    List (Cplx R) × Cplx R :=
  let even := s.1.getD (base + n) 0
  let odd := s.1.getD (base + n + half) 0 * s.2
  ((s.1.set (base + n) (even + odd)).set (base + n + half) (even - odd), s.2 * step)

/-- The butterflies of one block. -/
def fftBlock (step : Cplx R) (width base : ℕ) (data : List (Cplx R)) : List (Cplx R) :=
  ((List.range (width >>> 1)).foldl (fftButterfly step (width >>> 1) base) (data, 1)).1

/-- The blocks from `base` on; `none` after `fuel` rounds of the loop. -/
def fftBlocks (step : Cplx R) (len width : ℕ) : ℕ → ℕ → List (Cplx R) → Option (List (Cplx R))
  | 0, _, _ => none
  | fuel + 1, base, data =>
    if base < len then
      fftBlocks step len width fuel ((base + width) % (uintMax + 1)) (fftBlock step width base data)
    else some data

/-- The stages from `width` on; `none` after `fuel` rounds of one of the loops. -/
def fftStages (inverse : Bool) (len : ℕ) : ℕ → ℕ → List (Cplx R) → Option (List (Cplx R))
  | 0, _, _ => none
  | fuel + 1, width, data =>
    if width ≤ len then do
      let data ← fftBlocks (fftStep math inverse width) len width fuel 0 data
      fftStages inverse len fuel ((width <<< 1) % (uintMax + 1)) data
    else some data

/-- `sync_fft`. -/
def syncFft (fuel : ℕ) (data : List (Cplx R)) (len : ℕ) (inverse : Bool) :
    Option (List (Cplx R)) := do
  let data ← fftStages math inverse len fuel 2 (bitReverse len data)
  if inverse then some (data.map fun s => ⟨s.i / (len : R), s.q / (len : R)⟩) else some data

end

/-! ### The reordering -/

theorem xor_two_pow_of_lt {k x : ℕ} (hx : x < 2 ^ k) : x ^^^ 2 ^ k = 2 ^ k + x := by
  refine Nat.eq_of_testBit_eq fun j => ?_
  rw [← Nat.mul_one (2 ^ k), Nat.testBit_two_pow_mul_add 1 hx, Nat.mul_one, Nat.testBit_xor,
    Nat.testBit_two_pow]
  rcases Nat.lt_trichotomy j k with hlt | rfl | hgt
  · rw [if_pos hlt, decide_eq_false hlt.ne', Bool.xor_false]
  · rw [if_neg (lt_irrefl j), Nat.testBit_lt_two_pow hx, Nat.sub_self]
    simp
  · obtain ⟨d, hd⟩ : ∃ d, j - k = d + 1 := ⟨j - k - 1, by omega⟩
    rw [if_neg (by omega), hd, Nat.testBit_succ, decide_eq_false hgt.ne, Bool.xor_false,
      Nat.testBit_lt_two_pow (hx.trans (Nat.pow_lt_pow_right one_lt_two hgt))]
    simp

/-- **The counter** of the reordering loop counts in bit-reversed order. -/
theorem reverseCarry_rev (k n : ℕ) : reverseCarry (rev k n) (2 ^ k >>> 1) = rev k (n + 1) := by
  induction k generalizing n with
  | zero =>
    rw [reverseCarry, dif_neg (by simp [rev])]
    simp [rev]
  | succ k ih =>
    have hbit : 2 ^ (k + 1) >>> 1 = 2 ^ k := by
      rw [Nat.shiftRight_one, pow_succ, Nat.mul_div_cancel _ two_pos]
    rw [hbit, reverseCarry, Nat.and_two_pow]
    obtain ⟨u, rfl | rfl⟩ := Nat.even_or_odd' n
    · -- the top bit is clear: it is set, and the loop ends
      have hlt := rev_lt k u
      rw [rev_two_mul, Nat.testBit_lt_two_pow hlt, dif_neg (by simp), xor_two_pow_of_lt hlt,
        rev_two_mul_add_one]
    · -- the top bit is set: it is cleared, and the carry goes on below
      have hlt := rev_lt k u
      have hclear : (2 ^ k + rev k u) ^^^ 2 ^ k = rev k u := by
        rw [← xor_two_pow_of_lt hlt, Nat.xor_assoc, Nat.xor_self, Nat.xor_zero]
      rw [rev_two_mul_add_one, Nat.testBit_two_pow_add_eq, Nat.testBit_lt_two_pow hlt,
        dif_pos (by simp), hclear, ih, show 2 * u + 1 + 1 = 2 * (u + 1) by ring, rev_two_mul]

section
variable {R : Type*} [Field R]

/-- What the reordering has done before round `t + 1`: pairs with an index up to `t` are
exchanged. -/
structure Reordered (k t : ℕ) (data : List (Cplx R)) (s : List (Cplx R) × ℕ) : Prop where
  length_eq : s.1.length = 2 ^ k
  counter : s.2 = rev k t
  entry : ∀ p < 2 ^ k, s.1.getD p 0
    = if p ≤ t ∨ rev k p ≤ t then data.getD (rev k p) 0 else data.getD p 0

theorem Reordered.start {k : ℕ} {data : List (Cplx R)} (hlen : data.length = 2 ^ k) :
    Reordered k 0 data (data, 0) where
  length_eq := hlen
  counter := (rev_zero_right k).symm
  entry := by
    intro p hp
    split
    case isTrue h =>
      have hp0 : p = 0 := by
        rcases h with h | h
        · exact Nat.le_zero.mp h
        · rw [← rev_rev hp, Nat.le_zero.mp h, rev_zero_right]
      rw [hp0, rev_zero_right]
    case isFalse h => rfl

theorem Reordered.round {k t : ℕ} {data : List (Cplx R)} {s : List (Cplx R) × ℕ}
    (h : Reordered k t data s) (ht : t + 1 < 2 ^ k) :
    Reordered k (t + 1) data (reverseRound (2 ^ k) s (t + 1)) := by
  have hrev := rev_rev ht
  have hrevlt := rev_lt k (t + 1)
  unfold reverseRound
  dsimp only
  rw [h.counter, reverseCarry_rev]
  split
  case isTrue hlt =>
    -- the pair of `t + 1` is exchanged now
    refine ⟨by rw [List.length_set, List.length_set, h.length_eq], rfl, fun p hp => ?_⟩
    have hlen := h.length_eq
    rw [getD_set _ _ _ _ (by rw [List.length_set]; omega), getD_set _ _ _ _ (by omega)]
    by_cases hj : p = rev k (t + 1)
    · rw [if_pos hj, h.entry _ ht, if_neg (by omega), hj, hrev, if_pos (Or.inr le_rfl)]
    · rw [if_neg hj]
      by_cases hi : p = t + 1
      · rw [if_pos hi, h.entry _ hrevlt, hrev, if_neg (by omega), hi, if_pos (Or.inl le_rfl)]
      · have hne : rev k p ≠ t + 1 := fun heq => hj (by rw [← heq, rev_rev hp])
        rw [if_neg hi, h.entry p hp]
        exact if_congr (by omega) rfl rfl
  case isFalse hge =>
    -- it has been exchanged before, or `t + 1` is its own reversal
    refine ⟨h.length_eq, rfl, fun p hp => ?_⟩
    rw [h.entry p hp]
    by_cases hi : p = t + 1
    · rw [if_pos (Or.inl hi.le), hi]
      by_cases hself : rev k (t + 1) = t + 1
      · rw [hself, ite_self]
      · rw [if_pos (Or.inr (by omega))]
    · by_cases hj : rev k p = t + 1
      · have hp' : p = rev k (t + 1) := by rw [← hj, rev_rev hp]
        rw [if_pos (Or.inl (by omega)), if_pos (Or.inl (by omega))]
      · exact if_congr (by omega) rfl rfl

/-- **The reordering** puts a list of length `2 ^ k` in bit-reversed order. -/
theorem bitReverse_spec {k : ℕ} {data : List (Cplx R)} (hlen : data.length = 2 ^ k) :
    (bitReverse (2 ^ k) data).length = 2 ^ k ∧
      ∀ p < 2 ^ k, (bitReverse (2 ^ k) data).getD p 0 = data.getD (rev k p) 0 := by
  have run : ∀ t < 2 ^ k, Reordered k t data
      ((List.range' 1 t).foldl (reverseRound (2 ^ k)) (data, 0)) := by
    intro t
    induction t with
    | zero => exact fun _ => .start hlen
    | succ t ih =>
      intro ht
      rw [List.range'_concat, List.foldl_append, List.foldl_cons, List.foldl_nil, Nat.one_mul,
        Nat.add_comm 1 t]
      exact (ih (by omega)).round ht
  have hpos := Nat.two_pow_pos k
  have hall := run (2 ^ k - 1) (by omega)
  refine ⟨hall.length_eq, fun p hp => ?_⟩
  rw [bitReverse, hall.entry p hp, if_pos (Or.inl (by omega))]

/-! ### The butterflies -/

/-- The butterflies of a block, the first `n` of them done. -/
def butterflied (step : Cplx R) (half base n : ℕ) (x : ℕ → Cplx R) (i : ℕ) : Cplx R :=
  if base ≤ i ∧ i < base + n then x i + step ^ (i - base) * x (i + half)
  else if base + half ≤ i ∧ i < base + half + n then
    x (i - half) - step ^ (i - half - base) * x i
  else x i

theorem fftButterfly_run (step : Cplx R) {half base : ℕ} {data : List (Cplx R)}
    (hfit : base + 2 * half ≤ data.length) {n : ℕ} (hn : n ≤ half) :
    ∃ d, (List.range n).foldl (fftButterfly step half base) (data, 1) = (d, step ^ n) ∧
      d.length = data.length ∧
      ∀ i, d.getD i 0 = butterflied step half base n (data.getD · 0) i := by
  induction n with
  | zero =>
    refine ⟨data, by rw [pow_zero]; rfl, rfl, fun i => ?_⟩
    rw [butterflied, if_neg (by omega), if_neg (by omega)]
  | succ n ih =>
    obtain ⟨d, hrun, hlen, hget⟩ := ih (by omega)
    rw [List.range_succ, List.foldl_append, hrun, List.foldl_cons, List.foldl_nil, fftButterfly]
    dsimp only
    refine ⟨_, by rw [pow_succ], by rw [List.length_set, List.length_set, hlen], fun i => ?_⟩
    have heven : d.getD (base + n) 0 = data.getD (base + n) 0 := by
      rw [hget, butterflied, if_neg (by omega), if_neg (by omega)]
    have hodd : d.getD (base + n + half) 0 = data.getD (base + n + half) 0 := by
      rw [hget, butterflied, if_neg (by omega), if_neg (by omega)]
    rw [getD_set _ _ _ _ (by rw [List.length_set]; omega), getD_set _ _ _ _ (by omega), heven,
      hodd, mul_comm _ (step ^ n)]
    by_cases hhigh : i = base + n + half
    · rw [if_pos hhigh, butterflied, if_neg (by omega), if_pos (by omega), hhigh,
        Nat.add_sub_cancel, Nat.add_sub_cancel_left]
    · rw [if_neg hhigh]
      by_cases hlow : i = base + n
      · rw [if_pos hlow, butterflied, if_pos (by omega), hlow, Nat.add_sub_cancel_left]
      · rw [if_neg hlow, hget, butterflied, butterflied]
        refine if_congr (by omega) rfl (if_congr (by omega) rfl rfl)

/-- **A block**: the rest of the data is left alone. -/
theorem fftBlock_spec (step : Cplx R) (half base : ℕ) (data : List (Cplx R))
    (hfit : base + 2 * half ≤ data.length) :
    (fftBlock step (2 * half) base data).length = data.length ∧
      (∀ n < half, (fftBlock step (2 * half) base data).getD (base + n) 0
        = data.getD (base + n) 0 + step ^ n * data.getD (base + half + n) 0) ∧
      (∀ n < half, (fftBlock step (2 * half) base data).getD (base + half + n) 0
        = data.getD (base + n) 0 - step ^ n * data.getD (base + half + n) 0) ∧
      ∀ i, i < base ∨ base + 2 * half ≤ i →
        (fftBlock step (2 * half) base data).getD i 0 = data.getD i 0 := by
  have hhalf : (2 * half) >>> 1 = half := by
    rw [Nat.shiftRight_one, Nat.mul_div_cancel_left _ two_pos]
  obtain ⟨d, hrun, hlen, hget⟩ := fftButterfly_run step hfit le_rfl
  have hblock : fftBlock step (2 * half) base data = d := by rw [fftBlock, hhalf, hrun]
  rw [hblock]
  refine ⟨hlen, fun n hn => ?_, fun n hn => ?_, fun i hi => ?_⟩
  · rw [hget, butterflied, if_pos (by omega), Nat.add_sub_cancel_left,
      show base + n + half = base + half + n by omega]
  · rw [hget, butterflied, if_neg (by omega), if_pos (by omega),
      show base + half + n - half = base + n by omega, Nat.add_sub_cancel_left]
  · rw [hget, butterflied, if_neg (by omega), if_neg (by omega)]

/-- What the blocks from number `b₀` to the end turn `data` into. -/
structure BlocksDone (step : Cplx R) (half b₀ q : ℕ) (data d : List (Cplx R)) : Prop where
  length_eq : d.length = data.length
  before : ∀ i < b₀ * (2 * half), d.getD i 0 = data.getD i 0
  low : ∀ b, b₀ ≤ b → b < b₀ + q → ∀ n < half, d.getD (b * (2 * half) + n) 0
    = data.getD (b * (2 * half) + n) 0 + step ^ n * data.getD (b * (2 * half) + half + n) 0
  high : ∀ b, b₀ ≤ b → b < b₀ + q → ∀ n < half, d.getD (b * (2 * half) + half + n) 0
    = data.getD (b * (2 * half) + n) 0 - step ^ n * data.getD (b * (2 * half) + half + n) 0

theorem BlocksDone.nil (step : Cplx R) (half b₀ : ℕ) (data : List (Cplx R)) :
    BlocksDone step half b₀ 0 data data where
  length_eq := rfl
  before := fun _ _ => rfl
  low := fun b h₁ h₂ => absurd h₁ (by omega)
  high := fun b h₁ h₂ => absurd h₁ (by omega)

/-- One block more in front. -/
theorem BlocksDone.cons {step : Cplx R} {half b₀ q : ℕ} {data d : List (Cplx R)}
    (hhalf : 0 < half) (hfit : b₀ * (2 * half) + 2 * half ≤ data.length)
    (h : BlocksDone step half (b₀ + 1) q (fftBlock step (2 * half) (b₀ * (2 * half)) data) d) :
    BlocksDone step half b₀ (q + 1) data d := by
  obtain ⟨hblen, hblow, hbhigh, hbrest⟩ := fftBlock_spec step half (b₀ * (2 * half)) data hfit
  -- the later blocks find the data as it was
  have hafter : ∀ b, b₀ + 1 ≤ b → ∀ i, b * (2 * half) ≤ i →
      (fftBlock step (2 * half) (b₀ * (2 * half)) data).getD i 0 = data.getD i 0 := by
    intro b hb i hi
    have hmul : (b₀ + 1) * (2 * half) ≤ b * (2 * half) := Nat.mul_le_mul_right _ hb
    rw [Nat.add_one_mul b₀] at hmul
    exact hbrest i (Or.inr (by omega))
  -- and leave this one alone
  have hwithin : ∀ n < 2 * half, b₀ * (2 * half) + n < (b₀ + 1) * (2 * half) := by
    intro n hn
    rw [Nat.add_one_mul b₀]
    omega
  refine ⟨h.length_eq.trans hblen, fun i hi => ?_, fun b h₁ h₂ n hn => ?_,
    fun b h₁ h₂ n hn => ?_⟩
  · rw [h.before i (hi.trans (Nat.mul_lt_mul_of_pos_right (Nat.lt_succ_self b₀) (by omega))),
      hbrest i (Or.inl hi)]
  · rcases Nat.eq_or_lt_of_le h₁ with rfl | hlt
    · rw [h.before _ (hwithin n (by omega)), hblow n hn]
    · rw [h.low b hlt (by omega) n hn, hafter b hlt _ (by omega), hafter b hlt _ (by omega)]
  · rcases Nat.eq_or_lt_of_le h₁ with rfl | hlt
    · rw [Nat.add_assoc, h.before _ (hwithin _ (by omega)), ← Nat.add_assoc, hbhigh n hn]
    · rw [h.high b hlt (by omega) n hn, hafter b hlt _ (by omega), hafter b hlt _ (by omega)]

/-- **The blocks of a stage**, by induction on how many are left. -/
theorem fftBlocks_spec (step : Cplx R) {half len : ℕ} (hlen : len ≤ 2 ^ 31) (hhalf : 0 < half)
    (q : ℕ) : ∀ (b₀ fuel : ℕ) (data : List (Cplx R)), (b₀ + q) * (2 * half) = len →
      data.length = len → q < fuel →
      ∃ d, fftBlocks step len (2 * half) fuel (b₀ * (2 * half)) data = some d ∧
        BlocksDone step half b₀ q data d := by
  induction q with
  | zero =>
    intro b₀ fuel data hbase hdata hfuel
    obtain ⟨fuel, rfl⟩ := Nat.exists_eq_succ_of_ne_zero hfuel.ne'
    rw [Nat.add_zero] at hbase
    exact ⟨data, by rw [fftBlocks, if_neg (by omega)], .nil step half b₀ data⟩
  | succ q ih =>
    intro b₀ fuel data hbase hdata hfuel
    obtain ⟨fuel, rfl⟩ := Nat.exists_eq_succ_of_ne_zero (Nat.ne_zero_of_lt hfuel)
    have hsplit : b₀ * (2 * half) + (q + 1) * (2 * half) = len := by rw [← Nat.add_mul, hbase]
    have hq : (q + 1) * (2 * half) = q * (2 * half) + 2 * half := Nat.succ_mul _ _
    have hfit : b₀ * (2 * half) + 2 * half ≤ data.length := by omega
    have hnext : (b₀ * (2 * half) + 2 * half) % (uintMax + 1) = (b₀ + 1) * (2 * half) := by
      have hmax : uintMax = 4294967295 := rfl
      rw [Nat.mod_eq_of_lt (by omega), Nat.add_one_mul b₀]
    have hblen := (fftBlock_spec step half (b₀ * (2 * half)) data hfit).1
    obtain ⟨d, hrun, hdone⟩ := ih (b₀ + 1) fuel
      (fftBlock step (2 * half) (b₀ * (2 * half)) data)
      (by rw [← hbase]; ring) (hblen.trans hdata) (by omega)
    refine ⟨d, ?_, hdone.cons hhalf hfit⟩
    rw [fftBlocks, if_pos (by omega), hnext, hrun]

end

/-! ### The stages -/

/-- The steps of the stages, exactly: each is the square of the next. -/
noncomputable def fftTower (inverse : Bool) : RootTower (Cplx ℝ) where
  root r := fftStep SyncMath.exact inverse (2 ^ r)
  root_one := by
    have hangle : (if inverse then 2 else -2) * Real.pi / ((2 ^ 1 : ℕ) : ℝ)
        = if inverse then Real.pi else -Real.pi := by
      cases inverse <;> simp
      ring
    ext
    · show Real.cos _ = _
      simp only [SyncMath.exact, hangle]
      cases inverse <;> simp
    · show Real.sin _ = _
      simp only [SyncMath.exact, hangle]
      cases inverse <;> simp
  sq r := by
    have hangle : (if inverse then 2 else -2) * Real.pi / ((2 ^ r : ℕ) : ℝ)
        = (if inverse then 2 else -2) * Real.pi / ((2 ^ (r + 1) : ℕ) : ℝ) +
          (if inverse then 2 else -2) * Real.pi / ((2 ^ (r + 1) : ℕ) : ℝ) := by
      push_cast
      rw [pow_succ]
      field_simp
      ring
    rw [pow_two]
    ext
    · simp only [fftStep, SyncMath.exact, hangle, Cplx.mul_i, Real.cos_add]
    · simp only [fftStep, SyncMath.exact, hangle, Cplx.mul_q, Real.sin_add]
      ring

/-- Both directions turn by opposite angles. -/
theorem fftTower_inverse (k : ℕ) : (fftTower false).root k * (fftTower true).root k = 1 := by
  have hangle : -2 * Real.pi / ((2 ^ k : ℕ) : ℝ) = -(2 * Real.pi / ((2 ^ k : ℕ) : ℝ)) := by ring
  have hunit := Real.cos_sq_add_sin_sq (2 * Real.pi / ((2 ^ k : ℕ) : ℝ))
  show fftStep SyncMath.exact false (2 ^ k) * fftStep SyncMath.exact true (2 ^ k) = 1
  unfold fftStep SyncMath.exact
  simp only [Bool.false_eq_true, if_false, if_true, hangle, Real.cos_neg, Real.sin_neg]
  ext
  · rw [Cplx.mul_i, Cplx.one_i, ← hunit]
    ring
  · rw [Cplx.mul_q, Cplx.one_q]
    ring

/-- **The stages**, by induction on how many are left. -/
theorem fftStages_spec (inverse : Bool) (m : ℕ) : ∀ {r : ℕ} (fuel : ℕ)
    {data : List (Cplx ℝ)} {a : ℕ → Cplx ℝ}, m + r ≤ 30 → data.length = 2 ^ (m + r) →
      Staged (fftTower inverse) m r a (data.getD · 0) → 2 ^ (m + r) + m < fuel →
      ∃ d, fftStages SyncMath.exact inverse (2 ^ (m + r)) fuel (2 ^ (r + 1)) data = some d ∧
        d.length = 2 ^ (m + r) ∧
        ∀ n < 2 ^ (m + r), d.getD n 0 = dft (fftTower inverse) (m + r) a n := by
  induction m with
  | zero =>
    intro r fuel data a hsmall hlen hstaged hfuel
    obtain ⟨fuel, rfl⟩ := Nat.exists_eq_succ_of_ne_zero (Nat.ne_zero_of_lt hfuel)
    have hwide : 2 ^ r < 2 ^ (r + 1) := Nat.pow_lt_pow_right one_lt_two (Nat.lt_succ_self r)
    rw [Nat.zero_add] at hlen ⊢
    exact ⟨data, by rw [fftStages, if_neg (by omega)], hlen, hstaged.finish⟩
  | succ m ih =>
    intro r fuel data a hsmall hlen hstaged hfuel
    obtain ⟨fuel, rfl⟩ := Nat.exists_eq_succ_of_ne_zero (Nat.ne_zero_of_lt hfuel)
    have hwidth : 2 ^ (r + 1) = 2 * 2 ^ r := pow_succ' 2 r
    have htotal : (0 + 2 ^ m) * (2 * 2 ^ r) = 2 ^ (m + 1 + r) := by
      rw [Nat.zero_add, ← hwidth, ← pow_add, Nat.add_right_comm, Nat.add_assoc]
    have hle : 2 ^ (r + 1) ≤ 2 ^ (m + 1 + r) := Nat.pow_le_pow_right two_pos (by omega)
    have hblocks : 2 ^ m ≤ 2 ^ (m + 1 + r) := Nat.pow_le_pow_right two_pos (by omega)
    have hlong : 2 ^ (m + 1 + r) ≤ 2 ^ 31 := Nat.pow_le_pow_right two_pos (by omega)
    have hnext : (2 ^ (r + 1)) <<< 1 % (uintMax + 1) = 2 ^ (r + 1 + 1) := by
      have hfit : 2 ^ (r + 1 + 1) < 2 ^ 32 := Nat.pow_lt_pow_right one_lt_two (by omega)
      rw [Nat.shiftLeft_eq, ← pow_add, show uintMax + 1 = 2 ^ 32 from rfl, Nat.mod_eq_of_lt hfit]
    obtain ⟨d, hrun, hdone⟩ := fftBlocks_spec (fftStep SyncMath.exact inverse (2 ^ (r + 1))) hlong
      (Nat.two_pow_pos r) (2 ^ m) 0 fuel data htotal hlen (by omega)
    rw [Nat.zero_mul, ← hwidth] at hrun
    have hstage : Staged (fftTower inverse) m (r + 1) a (d.getD · 0) := by
      refine hstaged.butterfly _ (fun b hb n hn => ?_) fun b hb n hn => ?_
      · rw [hwidth]
        exact hdone.low b (Nat.zero_le b) (by omega) n hn
      · rw [hwidth]
        exact hdone.high b (Nat.zero_le b) (by omega) n hn
    rw [show m + 1 + r = m + (r + 1) by omega] at hlen hfuel hrun hle ⊢
    obtain ⟨d', hrest, hlen', hget⟩ := ih fuel (by omega)
      (hdone.length_eq.trans hlen) hstage (by omega)
    refine ⟨d', ?_, hlen', hget⟩
    rw [fftStages, if_pos hle, hrun, Option.bind_eq_bind, Option.bind_some, hnext, hrest]

theorem fftStages_reversed (inverse : Bool) {k fuel : ℕ} (hk : k ≤ 30) {data : List (Cplx ℝ)}
    (hlen : data.length = 2 ^ k) (hfuel : 2 ^ k + 31 ≤ fuel) :
    ∃ d, fftStages SyncMath.exact inverse (2 ^ k) fuel 2 (bitReverse (2 ^ k) data) = some d ∧
      d.length = 2 ^ k ∧ ∀ n < 2 ^ k, d.getD n 0 = dft (fftTower inverse) k (data.getD · 0) n := by
  obtain ⟨hlen', hget⟩ := bitReverse_spec hlen
  exact fftStages_spec inverse k (r := 0) fuel hk hlen' (.start _ hget) (by rw [Nat.add_zero]; omega)

/-- **The forward transform.** -/
theorem syncFft_forward {k fuel : ℕ} (hk : k ≤ 30) {data : List (Cplx ℝ)}
    (hlen : data.length = 2 ^ k) (hfuel : 2 ^ k + 31 ≤ fuel) :
    ∃ d, syncFft SyncMath.exact fuel data (2 ^ k) false = some d ∧ d.length = 2 ^ k ∧
      ∀ n < 2 ^ k, d.getD n 0 = dft (fftTower false) k (data.getD · 0) n := by
  obtain ⟨d, hrun, hspec⟩ := fftStages_reversed false hk hlen hfuel
  refine ⟨d, ?_, hspec⟩
  rw [syncFft, hrun]
  rfl

/-- **The inverse transform**, times its length. -/
theorem syncFft_inverse {k fuel : ℕ} (hk : k ≤ 30) {data : List (Cplx ℝ)}
    (hlen : data.length = 2 ^ k) (hfuel : 2 ^ k + 31 ≤ fuel) :
    ∃ d, syncFft SyncMath.exact fuel data (2 ^ k) true = some d ∧ d.length = 2 ^ k ∧
      ∀ n < 2 ^ k, ((2 ^ k : ℕ) : Cplx ℝ) * d.getD n 0
        = dft (fftTower true) k (data.getD · 0) n := by
  obtain ⟨d, hrun, hlen', hget⟩ := fftStages_reversed true hk hlen hfuel
  refine ⟨d.map fun s => ⟨s.i / ((2 ^ k : ℕ) : ℝ), s.q / ((2 ^ k : ℕ) : ℝ)⟩, ?_, ?_, fun n hn => ?_⟩
  · rw [syncFft, hrun]
    rfl
  · rw [List.length_map, hlen']
  · have hne : ((2 ^ k : ℕ) : ℝ) ≠ 0 := Nat.cast_ne_zero.mpr (Nat.two_pow_pos k).ne'
    rw [← hget n hn, List.getD_eq_getElem?_getD, List.getElem?_map,
      List.getElem?_eq_getElem (by omega), List.getD_eq_getElem _ _ (by omega), Option.map_some,
      Option.getD_some]
    ext
    · rw [Cplx.mul_i, Cplx.natCast_i, Cplx.natCast_q, zero_mul, sub_zero, mul_div_cancel₀ _ hne]
    · rw [Cplx.mul_q, Cplx.natCast_i, Cplx.natCast_q, zero_mul, add_zero, mul_div_cancel₀ _ hne]

/-! ### Rounds -/

section
variable {R : Type*} [Field R]

theorem fftBlocks_mono {step : Cplx R} {len width fuel : ℕ} : ∀ {fuel' base : ℕ}
    {data d : List (Cplx R)}, fuel ≤ fuel' → fftBlocks step len width fuel base data = some d →
      fftBlocks step len width fuel' base data = some d := by
  induction fuel with
  | zero => exact fun _ h => absurd h (by rw [fftBlocks]; simp)
  | succ fuel ih =>
    intro fuel' base data d hle h
    obtain ⟨fuel', rfl⟩ := Nat.exists_eq_succ_of_ne_zero (Nat.ne_zero_of_lt hle)
    rw [fftBlocks] at h ⊢
    split at h
    case isTrue hbase => rw [if_pos hbase, ih (Nat.le_of_succ_le_succ hle) h]
    case isFalse hbase => rw [if_neg hbase, h]

theorem fftStages_mono {math : SyncMath R} {inverse : Bool} {len fuel : ℕ} : ∀ {fuel' width : ℕ}
    {data d : List (Cplx R)}, fuel ≤ fuel' →
      fftStages math inverse len fuel width data = some d →
      fftStages math inverse len fuel' width data = some d := by
  induction fuel with
  | zero => exact fun _ h => absurd h (by rw [fftStages]; simp)
  | succ fuel ih =>
    intro fuel' width data d hle h
    obtain ⟨fuel', rfl⟩ := Nat.exists_eq_succ_of_ne_zero (Nat.ne_zero_of_lt hle)
    have hle' := Nat.le_of_succ_le_succ hle
    rw [fftStages] at h ⊢
    split at h
    case isTrue hwidth =>
      obtain ⟨data', hblocks, hrest⟩ := Option.bind_eq_some_iff.mp h
      rw [if_pos hwidth, fftBlocks_mono hle' hblocks]
      exact ih hle' hrest
    case isFalse hwidth => rw [if_neg hwidth, h]

/-- More rounds change nothing once the transform has ended. -/
theorem syncFft_mono {math : SyncMath R} {inverse : Bool} {len fuel fuel' : ℕ}
    {data d : List (Cplx R)} (hle : fuel ≤ fuel')
    (h : syncFft math fuel data len inverse = some d) :
    syncFft math fuel' data len inverse = some d := by
  obtain ⟨data', hstages, hrest⟩ := Option.bind_eq_some_iff.mp h
  rw [syncFft, fftStages_mono hle hstages]
  exact hrest

end

/-! ### The longest transform -/

section
variable {R : Type*} [Field R]

/-- A width of zero never gets past the first block. -/
theorem fftBlocks_stuck (step : Cplx R) {len : ℕ} (hlen : 0 < len) (fuel : ℕ)
    (data : List (Cplx R)) : fftBlocks step len 0 fuel 0 data = none := by
  induction fuel generalizing data with
  | zero => rfl
  | succ fuel ih =>
    rw [fftBlocks, if_pos hlen]
    exact ih _

/-- **At length `2 ^ 31` the stages never end**: the width doubles to zero, which is no longer than
the data. -/
theorem syncFft_stuck (math : SyncMath R) (inverse : Bool) (fuel : ℕ) (data : List (Cplx R)) :
    syncFft math fuel data (2 ^ 31) inverse = none := by
  have hstages : ∀ fuel width data, (width = 0 ∨ ∃ r < 31, width = 2 ^ (r + 1)) →
      fftStages math inverse (2 ^ 31) fuel width data = none := by
    intro fuel
    induction fuel with
    | zero => exact fun _ _ _ => rfl
    | succ fuel ih =>
      rintro width data (rfl | ⟨r, hr, rfl⟩)
      · rw [fftStages, if_pos (Nat.zero_le _), fftBlocks_stuck _ (Nat.two_pow_pos 31)]
        rfl
      · have hnext : (2 ^ (r + 1)) <<< 1 % (uintMax + 1) = 0 ∨
            ∃ r' < 31, (2 ^ (r + 1)) <<< 1 % (uintMax + 1) = 2 ^ (r' + 1) := by
          rw [Nat.shiftLeft_eq, ← pow_add]
          rcases Nat.lt_or_ge r 30 with hlt | hge
          · have hfit : 2 ^ (r + 1 + 1) < 2 ^ 32 := Nat.pow_lt_pow_right one_lt_two (by omega)
            exact Or.inr ⟨r + 1, by omega, Nat.mod_eq_of_lt hfit⟩
          · rw [show r = 30 by omega]
            exact Or.inl rfl
        rw [fftStages, if_pos (Nat.pow_le_pow_right two_pos (by omega))]
        cases fftBlocks (fftStep math inverse (2 ^ (r + 1))) (2 ^ 31) (2 ^ (r + 1)) fuel 0 data with
        | none => rfl
        | some d => exact ih _ _ hnext
  rw [syncFft, hstages fuel 2 _ (Or.inr ⟨0, by decide, rfl⟩)]
  rfl

end

end OpenVlsnr
