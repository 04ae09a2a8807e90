import Mathlib.Analysis.SpecialFunctions.Log.Base
import OpenVlsnr.Phasors
import OpenVlsnr.VlsnrHeader

/-!
# Carrier recovery (`demodulator_top.c`, `sync_afc.c`)

The estimators all add up products of a symbol with the conjugate of an earlier one (`lagSum`) and
take the argument.  On a carrier of one frequency these products are phasors of one angle, so the
estimate is that angle as long as it does not wrap (`lagSum_tone`): the blind estimate up to an
eighth of the symbol rate (`coarseBlindCarrier_tone`), the one of the header up to half of it
(`coarseFreqRecover_tone`).  The oscillator that takes a carrier off is exact over any span
(`derotate_getD`).
-/

namespace OpenVlsnr

open Finset Phasors

/-- What carrier recovery uses of `math.h` besides. -/
structure CarrierMath (R : Type*) extends SyncMath R where
  atan2 : R → R → R
  log10 : R → R

/-- The exact functions. -/
noncomputable def CarrierMath.exact : CarrierMath ℝ where
  toSyncMath := SyncMath.exact
  atan2 := fun y x => Complex.arg ⟨x, y⟩
  log10 := Real.logb 10

abbrev lrLags : ℕ := 128
abbrev syncSegLen : ℕ := 128
abbrev derotateReanchor : ℕ := 256

section
variable {R : Type*} [Field R] [LinearOrder R] (math : CarrierMath R)

/-! ### The oscillator -/

/-- Round `n` of `derotate`: the symbols, and `c` and `s`. -/
def derotateRound (base : ℕ) (step phi : R) (st : List (Cplx R) × Cplx R) (n : ℕ) :
    List (Cplx R) × Cplx R :=
  let r := st.1.getD (base + n) 0
  let next := st.2 * ⟨math.cos step, math.sin step⟩
  let angle := step * ((n + 1 : ℕ) : R) + phi
  (st.1.set (base + n) ⟨r.i * st.2.i + r.q * st.2.q, r.q * st.2.i - r.i * st.2.q⟩,
    if (n + 1) % derotateReanchor = 0 then ⟨math.cos angle, math.sin angle⟩ else next)

def derotate (sym : List (Cplx R)) (base span : ℕ) (f phi : R) : List (Cplx R) :=
  ((List.range span).foldl (derotateRound math base (2 * math.pi * f) phi)
    (sym, ⟨math.cos phi, math.sin phi⟩)).1

/-! ### The estimators -/

omit [LinearOrder R] in
/-- `Σ z[k] conj(z[k - m])` for `k` from `m` up to `n`, as the estimators add it up. -/
def lagSum (z : ℕ → Cplx R) (m n : ℕ) : Cplx R :=
  (List.range' m (n - m)).foldl
    (fun s k =>
      ⟨s.i + ((z k).i * (z (k - m)).i + (z k).q * (z (k - m)).q),
        s.q + ((z k).q * (z (k - m)).i - (z k).i * (z (k - m)).q)⟩) 0

def fourthPower (s : Cplx R) : Cplx R :=
  let power := s.i * s.i + s.q * s.q
  if power ≤ 1 / 10 ^ 12 then 0
  else
    let i := s.i / math.sqrt power
    let q := s.q / math.sqrt power
    let r2 := i * i - q * q
    let i2 := 2 * i * q
    ⟨r2 * r2 - i2 * i2, 2 * r2 * i2⟩

/-- `coarse_blind_carrier`. -/
def coarseBlindCarrier (symbols : List (Cplx R)) : List (Cplx R) :=
  let len := symbols.length
  if len < 2 then symbols
  else
    let corr := lagSum (fun n => fourthPower math (symbols.getD n 0)) 1 len
    let coherence := math.sqrt (corr.i * corr.i + corr.q * corr.q) / ((len - 1 : ℕ) : R)
    if coherence < 1 / 5 then symbols
    else derotate math symbols 0 len (math.atan2 corr.q corr.i / (8 * math.pi)) 0

/-- `z[n] = r * conj(ref)`. -/
def headerProduct (sym : List (Cplx R)) (whStart : ℕ) (whRef : List (Cplx R)) (n : ℕ) : Cplx R :=
  let r := sym.getD (whStart + n) 0
  let w := whRef.getD n 0
  ⟨r.i * w.i + r.q * w.q, r.q * w.i - r.i * w.q⟩

/-- `lr_freq`. -/
def lrFreq (z : ℕ → Cplx R) (n : ℕ) : R :=
  let s := (List.range' 1 (min lrLags (n - 1))).foldl
    (fun (s : Cplx R) m =>
      let r := lagSum z m n
      ⟨s.i + r.i / ((n - m : ℕ) : R), s.q + r.q / ((n - m : ℕ) : R)⟩) 0
  math.atan2 s.q s.i / (math.pi * ((lrLags + 1 : ℕ) : R))

/-- `estimate_noise_var`. -/
def estimateNoiseVar (sym : List (Cplx R)) (whStart : ℕ) (whRef : List (Cplx R)) : R :=
  let z := headerProduct sym whStart whRef
  let acc := (List.range' 2 (vlsnrWhLen - 2)).foldl
    (fun acc n =>
      let di := (z n).i - 2 * (z (n - 1)).i + (z (n - 2)).i
      let dq := (z n).q - 2 * (z (n - 1)).q + (z (n - 2)).q
      acc + (di * di + dq * dq)) 0
  acc / ((vlsnrWhLen - 2 : ℕ) : R) / 12

/-- `esn0_db`. -/
def esn0Db (nvEst : R) : R := 10 * math.log10 (1 / (2 * nvEst + 1 / 10 ^ 12))

/-- `normalize_input_level`. -/
def normalizeInputLevel (sym : List (Cplx R)) (whStart : ℕ) (whRef : List (Cplx R)) :
    List (Cplx R) :=
  let magnitude := segmentMag math.toSyncMath sym whRef syncSegLen whStart / (vlsnrWhLen : ℕ)
  if magnitude ≤ 0 ∨ (magnitude ≥ 1 / 4 ∧ magnitude ≤ 4) then sym
  else sym.map fun s => ⟨s.i * (1 / magnitude), s.q * (1 / magnitude)⟩

/-- The rotation of `z` by the first estimate. -/
def rotateProducts (f1 : R) (z : ℕ → Cplx R) (n : ℕ) : Cplx R :=
  let a := -2 * math.pi * f1 * (n : R)
  let c := math.cos a
  let s := math.sin a
  ⟨(z n).i * c - (z n).q * s, (z n).i * s + (z n).q * c⟩

/-- `coarse_freq_recover`. -/
def coarseFreqRecover (sym : List (Cplx R)) (whStart span : ℕ) (whRef : List (Cplx R))
    (esn0 : R) : List (Cplx R) :=
  if esn0 < 4 then sym
  else
    let z := headerProduct sym whStart whRef
    let r := lagSum z 1 vlsnrWhLen
    let f1 := math.atan2 r.q r.i / (2 * math.pi)
    let f2 := lrFreq math (rotateProducts math f1 z) vlsnrWhLen
    derotate math sym whStart span (f1 + f2) 0

/-- `f_raw` of `dvbs2x_afc_update`. -/
def afcRaw (sym : List (Cplx R)) (whStart : ℕ) (whRef : List (Cplx R)) : R :=
  let r := lagSum (headerProduct sym whStart whRef) 1 vlsnrWhLen
  math.atan2 r.q r.i / (2 * math.pi)

end

/-! ### Phasors of the code -/

namespace Cplx

section
variable {R : Type*} [Field R]

@[simp] theorem conj_i (s : Cplx R) : s.conj.i = s.i := rfl
@[simp] theorem conj_q (s : Cplx R) : s.conj.q = -s.q := rfl
@[simp] theorem conj_zero : (0 : Cplx R).conj = 0 := by ext <;> simp
@[simp] theorem conj_conj (s : Cplx R) : s.conj.conj = s := by ext <;> simp
@[simp] theorem conj_mul (s t : Cplx R) : (s * t).conj = s.conj * t.conj := by
  ext <;> simp
  ring

@[simp] theorem sum_i {ι : Type*} (s : Finset ι) (f : ι → Cplx R) :
    (∑ k ∈ s, f k).i = ∑ k ∈ s, (f k).i := by
  classical
  induction s using Finset.induction with
  | empty => simp
  | insert a s ha ih => simp [sum_insert ha, ih]

@[simp] theorem sum_q {ι : Type*} (s : Finset ι) (f : ι → Cplx R) :
    (∑ k ∈ s, f k).q = ∑ k ∈ s, (f k).q := by
  classical
  induction s using Finset.induction with
  | empty => simp
  | insert a s ha ih => simp [sum_insert ha, ih]

end

end Cplx

/-- The phasor of length `r` at angle `θ`. -/
noncomputable def phasor (r θ : ℝ) : Cplx ℝ := ⟨r * Real.cos θ, r * Real.sin θ⟩

theorem phasor_one (θ : ℝ) : phasor 1 θ = ⟨Real.cos θ, Real.sin θ⟩ := by simp [phasor]

@[simp] theorem phasor_one_zero : phasor 1 0 = 1 := by ext <;> simp [phasor]

theorem phasor_mul (r s θ φ : ℝ) : phasor r θ * phasor s φ = phasor (r * s) (θ + φ) := by
  ext
  · simp only [phasor, Cplx.mul_i, Real.cos_add]
    ring
  · simp only [phasor, Cplx.mul_q, Real.sin_add]
    ring

@[simp] theorem phasor_conj (r θ : ℝ) : (phasor r θ).conj = phasor r (-θ) := by
  ext <;> simp [phasor]

theorem phasor_turns (r θ : ℝ) (k : ℤ) : phasor r (θ + k * (2 * Real.pi)) = phasor r θ := by
  rw [phasor, phasor, Real.cos_add_int_mul_two_pi, Real.sin_add_int_mul_two_pi]

theorem phasor_power (r θ : ℝ) : symbolPower (phasor r θ) = r ^ 2 := by
  have h := Real.sin_sq_add_cos_sq θ
  simp only [symbolPower, phasor]
  linear_combination r ^ 2 * h

theorem symbolPower_mul (s t : Cplx ℝ) : symbolPower (s * t) = symbolPower s * symbolPower t := by
  simp only [symbolPower, Cplx.mul_i, Cplx.mul_q]
  ring

theorem mul_conj_self (s : Cplx ℝ) : s * s.conj = ⟨symbolPower s, 0⟩ := by
  ext <;> simp [symbolPower]
  ring

theorem sum_phasor_const (n : ℕ) (r θ : ℝ) :
    ∑ _k ∈ range n, phasor r θ = phasor (n * r) θ := by
  ext <;> simp [phasor, mul_assoc]

/-- `atan2` of a phasor. -/
theorem atan2_phasor {r θ : ℝ} (hr : 0 < r) (hlow : -Real.pi < θ) (hhigh : θ ≤ Real.pi) :
    CarrierMath.exact.atan2 (phasor r θ).q (phasor r θ).i = θ := arg_polar hr hlow hhigh

theorem atan2_phasor_turns {r : ℝ} (hr : 0 < r) (θ : ℝ) :
    ∃ k : ℤ, CarrierMath.exact.atan2 (phasor r θ).q (phasor r θ).i = θ + k * (2 * Real.pi) :=
  arg_polar_turns hr θ

/-! ### The oscillator takes a carrier off -/

/-- What `derotate` has done after `n` rounds. -/
structure Derotated (sym : List (Cplx ℝ)) (base : ℕ) (step phi : ℝ) (n : ℕ)
    (st : List (Cplx ℝ) × Cplx ℝ) : Prop where
  osc : st.2 = phasor 1 (step * n + phi)
  length_eq : st.1.length = sym.length
  entry : ∀ k, k < sym.length → st.1.getD k 0
    = if base ≤ k ∧ k < base + n then sym.getD k 0 * phasor 1 (-(step * (k - base : ℕ) + phi))
      else sym.getD k 0

theorem Derotated.round {sym : List (Cplx ℝ)} {base n : ℕ} {step phi : ℝ}
    {st : List (Cplx ℝ) × Cplx ℝ} (h : Derotated sym base step phi n st) :
    Derotated sym base step phi (n + 1) (derotateRound CarrierMath.exact base step phi st n) := by
  refine ⟨?_, ?_, fun k hk => ?_⟩
  · -- anchored or not, the oscillator stands at `n + 1` steps
    have hanchor : phasor 1 (step * ((n + 1 : ℕ) : ℝ) + phi)
        = ⟨Real.cos (step * ((n + 1 : ℕ) : ℝ) + phi), Real.sin (step * ((n + 1 : ℕ) : ℝ) + phi)⟩ :=
      phasor_one _
    have hnext : st.2 * ⟨Real.cos step, Real.sin step⟩
        = phasor 1 (step * ((n + 1 : ℕ) : ℝ) + phi) := by
      rw [h.osc, ← phasor_one, phasor_mul, mul_one]
      congr 1
      push_cast
      ring
    show (if (n + 1) % derotateReanchor = 0 then
        (⟨Real.cos (step * ((n + 1 : ℕ) : ℝ) + phi),
          Real.sin (step * ((n + 1 : ℕ) : ℝ) + phi)⟩ : Cplx ℝ)
      else st.2 * ⟨Real.cos step, Real.sin step⟩) = _
    split
    · exact hanchor.symm
    · exact hnext
  · exact List.length_set.trans h.length_eq
  · have hwritten : (derotateRound CarrierMath.exact base step phi st n).1
        = st.1.set (base + n) (st.1.getD (base + n) 0 * st.2.conj) := by
      refine congrArg (st.1.set (base + n)) (Cplx.ext ?_ ?_)
      · simp
      · simp
        ring
    rw [hwritten]
    by_cases hhere : k = base + n
    · subst hhere
      rw [getD_set _ _ _ _ (by rwa [h.length_eq]), if_pos rfl, if_pos (by omega), h.entry _ hk,
        if_neg (by omega), h.osc, phasor_conj, Nat.add_sub_cancel_left]
    · rw [List.getD_eq_getElem?_getD, List.getElem?_set_ne (Ne.symm hhere),
        ← List.getD_eq_getElem?_getD, h.entry k hk]
      by_cases hin : base ≤ k ∧ k < base + n
      · rw [if_pos hin, if_pos (by omega)]
      · rw [if_neg hin, if_neg (by omega)]

/-- **`derotate`** takes `exp(j(2πfn + phi))` off its span and leaves the rest. -/
theorem derotated (sym : List (Cplx ℝ)) (base span : ℕ) (f phi : ℝ) :
    Derotated sym base (2 * Real.pi * f) phi span
      ((List.range span).foldl
        (derotateRound CarrierMath.exact base (2 * Real.pi * f) phi) (sym, phasor 1 phi)) := by
  induction span with
  | zero =>
    refine ⟨by simp, rfl, fun k _ => ?_⟩
    rw [if_neg (by omega)]
    rfl
  | succ n ih =>
    rw [List.range_succ, List.foldl_append]
    exact ih.round

theorem derotate_length (sym : List (Cplx ℝ)) (base span : ℕ) (f phi : ℝ) :
    (derotate CarrierMath.exact sym base span f phi).length = sym.length := by
  rw [derotate, ← (derotated sym base span f phi).length_eq, phasor_one]
  rfl

theorem derotate_getD (sym : List (Cplx ℝ)) (base span : ℕ) (f phi : ℝ) {k : ℕ}
    (hk : k < sym.length) :
    (derotate CarrierMath.exact sym base span f phi).getD k 0
      = if base ≤ k ∧ k < base + span then
          sym.getD k 0 * phasor 1 (-(2 * Real.pi * f * (k - base : ℕ) + phi))
        else sym.getD k 0 := by
  rw [← (derotated sym base span f phi).entry k hk, phasor_one]
  rfl

/-! ### Lag sums -/

theorem foldl_range'_eq_sum {M : Type*} [AddCommMonoid M] (f : ℕ → M) (a n : ℕ) (init : M) :
    (List.range' a n).foldl (fun s k => s + f k) init = init + ∑ k ∈ range n, f (a + k) := by
  rw [List.range'_eq_map_range, List.foldl_map]
  exact DelayLine.foldl_add_eq_sum (fun k => f (a + k)) n init

section
variable {R : Type*} [Field R]

theorem lagSum_eq (z : ℕ → Cplx R) (m n : ℕ) :
    lagSum z m n = ∑ k ∈ range (n - m), z (m + k) * (z k).conj := by
  have hround : (fun (s : Cplx R) k =>
      (⟨s.i + ((z k).i * (z (k - m)).i + (z k).q * (z (k - m)).q),
        s.q + ((z k).q * (z (k - m)).i - (z k).i * (z (k - m)).q)⟩ : Cplx R))
      = fun s k => s + z k * (z (k - m)).conj := by
    funext s k
    ext
    · simp
    · simp
      ring
  rw [lagSum, hround, foldl_range'_eq_sum, zero_add]
  simp only [Nat.add_sub_cancel_left]

theorem headerProduct_eq (sym : List (Cplx R)) (whStart : ℕ) (whRef : List (Cplx R)) (n : ℕ) :
    headerProduct sym whStart whRef n = sym.getD (whStart + n) 0 * (whRef.getD n 0).conj := by
  ext
  · simp [headerProduct]
  · simp [headerProduct]
    ring

end

/-- The products of a tone with itself, delayed. -/
theorem lagSum_tone {z : ℕ → Cplx ℝ} {g φ θ : ℝ} {m n : ℕ}
    (hz : ∀ k < n, z k = phasor g (φ + k * θ)) :
    lagSum z m n = phasor ((n - m : ℕ) * g ^ 2) (m * θ) := by
  rw [lagSum_eq, ← sum_phasor_const]
  refine sum_congr rfl fun k hk => ?_
  have hk' := mem_range.mp hk
  rw [hz (m + k) (by omega), hz k (by omega), phasor_conj, phasor_mul]
  congr 1
  · ring
  · push_cast
    ring

/-! ### Estimates from the header -/

/-- The header at `whStart`, on a carrier of gain `g` and `f` turns a symbol. -/
def HeaderTone (sym : List (Cplx ℝ)) (whStart : ℕ) (whRef : List (Cplx ℝ)) (g φ f : ℝ) : Prop :=
  ∀ n < vlsnrWhLen, headerProduct sym whStart whRef n = phasor g (φ + n * (2 * Real.pi * f))

section
variable {sym whRef : List (Cplx ℝ)} {whStart : ℕ} {g φ f : ℝ}

/-- The lag-one estimate. -/
theorem HeaderTone.lag_one (h : HeaderTone sym whStart whRef g φ f) (hg : 0 < g)
    (hlow : -(1 / 2) < f) (hhigh : f ≤ 1 / 2) :
    afcRaw CarrierMath.exact sym whStart whRef = f := by
  have hpi := Real.pi_pos
  have hpos : 0 < ((vlsnrWhLen - 1 : ℕ) : ℝ) * g ^ 2 := by
    have : (0 : ℝ) < ((vlsnrWhLen - 1 : ℕ) : ℝ) := by norm_num
    positivity
  rw [afcRaw, lagSum_tone h, Nat.cast_one, one_mul,
    atan2_phasor hpos (by nlinarith) (by nlinarith)]
  exact mul_div_cancel_left₀ _ (by positivity)

theorem rotateProducts_eq (f1 : ℝ) (z : ℕ → Cplx ℝ) (n : ℕ) :
    rotateProducts CarrierMath.exact f1 z n = z n * phasor 1 (-(n * (2 * Real.pi * f1))) := by
  have hangle : -2 * Real.pi * f1 * n = -(n * (2 * Real.pi * f1)) := by ring
  rw [phasor_one, ← hangle]
  rfl

/-- **`lr_freq`** on a tone of up to one turn in 129 symbols. -/
theorem lrFreq_tone {z : ℕ → Cplx ℝ} {n : ℕ} (hn : lrLags < n) (hg : 0 < g)
    (hz : ∀ k < n, z k = phasor g (φ + k * (2 * Real.pi * f))) (hf : |f| < 1 / 129) :
    lrFreq CarrierMath.exact z n = f := by
  have hpi := Real.pi_pos
  obtain ⟨hlow, hhigh⟩ := abs_lt.mp hf
  have hlags : lrLags = 128 := rfl
  set θ := 2 * Real.pi * f with hθ
  have hround : (fun (s : Cplx ℝ) m =>
      (⟨s.i + (lagSum z m n).i / ((n - m : ℕ) : ℝ), s.q + (lagSum z m n).q / ((n - m : ℕ) : ℝ)⟩ :
        Cplx ℝ))
      = fun s m => s + (⟨(lagSum z m n).i / ((n - m : ℕ) : ℝ),
          (lagSum z m n).q / ((n - m : ℕ) : ℝ)⟩ : Cplx ℝ) := by
    funext s m
    rfl
  -- each lag counts as one phasor, whatever the number of its products
  have hlag : ∀ m ∈ range 128, (⟨(lagSum z (1 + m) n).i / ((n - (1 + m) : ℕ) : ℝ),
      (lagSum z (1 + m) n).q / ((n - (1 + m) : ℕ) : ℝ)⟩ : Cplx ℝ)
      = phasor (g ^ 2) (θ + m * θ) := by
    intro m hm
    have hm' := mem_range.mp hm
    have hcount : ((n - (1 + m) : ℕ) : ℝ) ≠ 0 := by
      have : n - (1 + m) ≠ 0 := by omega
      exact_mod_cast this
    rw [lagSum_tone hz, show ((1 + m : ℕ) : ℝ) * θ = θ + m * θ by push_cast; ring]
    ext
    · simp only [phasor, mul_assoc, mul_div_cancel_left₀ _ hcount]
    · simp only [phasor, mul_assoc, mul_div_cancel_left₀ _ hcount]
  obtain ⟨d, hd, hsum⟩ := exists_kernel (n := 128) (by decide) (θ := θ) (by
    rw [hθ, abs_mul, abs_of_pos (by positivity : 0 < 2 * Real.pi)]
    push_cast
    nlinarith)
  have htotal : ∑ m ∈ range 128, phasor (g ^ 2) (θ + m * θ)
      = phasor (g ^ 2 * d) (129 * θ / 2) := by
    obtain ⟨hcos, hsin⟩ := hsum θ
    have hmid : θ + ((128 : ℕ) - 1 : ℝ) * θ / 2 = 129 * θ / 2 := by
      push_cast
      ring
    rw [hmid] at hcos hsin
    ext
    · simp only [Cplx.sum_i, phasor, ← mul_sum, hcos, mul_assoc]
    · simp only [Cplx.sum_q, phasor, ← mul_sum, hsin, mul_assoc]
  rw [lrFreq, hlags, Nat.min_eq_left (by omega), hround, foldl_range'_eq_sum, zero_add,
    sum_congr rfl hlag, htotal, atan2_phasor (by positivity) (by nlinarith) (by nlinarith), hθ]
  show 129 * (2 * Real.pi * f) / 2 / (Real.pi * ((128 + 1 : ℕ) : ℝ)) = f
  push_cast
  field_simp

/-- **`coarse_freq_recover`** takes off a carrier of up to half a turn a symbol, where the estimate
of the noise lets it. -/
theorem coarseFreqRecover_tone (h : HeaderTone sym whStart whRef g φ f) (hg : 0 < g)
    (hlow : -(1 / 2) < f) (hhigh : f ≤ 1 / 2) (span : ℕ) {esn0 : ℝ} (hesn0 : 4 ≤ esn0) :
    coarseFreqRecover CarrierMath.exact sym whStart span whRef esn0
      = derotate CarrierMath.exact sym whStart span f 0 := by
  have hf1 := h.lag_one hg hlow hhigh
  rw [afcRaw] at hf1
  -- what the first estimate leaves
  have hrest : ∀ k < vlsnrWhLen,
      rotateProducts CarrierMath.exact f (headerProduct sym whStart whRef) k
        = phasor g (φ + k * (2 * Real.pi * 0)) := by
    intro k hk
    rw [rotateProducts_eq, h k hk, phasor_mul, mul_one]
    congr 1
    ring
  have hf2 := lrFreq_tone (n := vlsnrWhLen) (by decide) hg hrest (by norm_num)
  rw [coarseFreqRecover, if_neg (not_lt.mpr hesn0)]
  dsimp only
  rw [hf1, hf2, add_zero]

/-- **`estimate_noise_var`** on a tone without noise measures its second difference. -/
theorem estimateNoiseVar_tone (h : HeaderTone sym whStart whRef g φ f) :
    estimateNoiseVar sym whStart whRef = g ^ 2 * (4 * Real.sin (Real.pi * f) ^ 2) ^ 2 / 12 := by
  have hround : ∀ k ∈ range (vlsnrWhLen - 2),
      (fun n =>
        ((headerProduct sym whStart whRef n).i - 2 * (headerProduct sym whStart whRef (n - 1)).i
            + (headerProduct sym whStart whRef (n - 2)).i)
          * ((headerProduct sym whStart whRef n).i - 2 * (headerProduct sym whStart whRef (n - 1)).i
            + (headerProduct sym whStart whRef (n - 2)).i)
        + ((headerProduct sym whStart whRef n).q - 2 * (headerProduct sym whStart whRef (n - 1)).q
            + (headerProduct sym whStart whRef (n - 2)).q)
          * ((headerProduct sym whStart whRef n).q - 2 * (headerProduct sym whStart whRef (n - 1)).q
            + (headerProduct sym whStart whRef (n - 2)).q)) (2 + k)
      = g ^ 2 * (4 * Real.sin (Real.pi * f) ^ 2) ^ 2 := by
    intro k hk
    have hk' := mem_range.mp hk
    -- the three symbols, around the middle one
    set α := φ + (k + 1) * (2 * Real.pi * f) with hα
    set β := 2 * Real.pi * f with hβ
    have h0 : headerProduct sym whStart whRef (2 + k - 2) = phasor g (α - β) := by
      rw [Nat.add_sub_cancel_left, h k (by omega)]
      congr 1
      ring
    have h1 : headerProduct sym whStart whRef (2 + k - 1) = phasor g α := by
      rw [show 2 + k - 1 = k + 1 by omega, h (k + 1) (by omega)]
      congr 1
      push_cast
      ring
    have h2 : headerProduct sym whStart whRef (2 + k) = phasor g (α + β) := by
      rw [h (2 + k) (by omega)]
      congr 1
      push_cast
      ring
    have hhalf : Real.cos β = 1 - 2 * Real.sin (Real.pi * f) ^ 2 := by
      rw [hβ, show 2 * Real.pi * f = 2 * (Real.pi * f) by ring, Real.cos_two_mul,
        ← Real.sin_sq_add_cos_sq (Real.pi * f)]
      ring
    have hunit := Real.sin_sq_add_cos_sq α
    dsimp only
    rw [h0, h1, h2]
    simp only [phasor, Real.cos_add, Real.cos_sub, Real.sin_add, Real.sin_sub, hhalf]
    linear_combination 16 * g ^ 2 * Real.sin (Real.pi * f) ^ 4 * hunit
  have hcount : ((vlsnrWhLen - 2 : ℕ) : ℝ) ≠ 0 := by norm_num
  rw [estimateNoiseVar]
  dsimp only
  rw [foldl_range'_eq_sum, zero_add, sum_congr rfl hround, sum_const, card_range, nsmul_eq_mul,
    mul_div_cancel_left₀ _ hcount]

end

/-! ### The blind estimate -/

/-- `x` behind a gain `g`, a phase `φ` and a carrier of `f` turns a symbol. -/
noncomputable def onCarrier (g φ f : ℝ) (x : List (Cplx ℝ)) : List (Cplx ℝ) :=
  (List.range x.length).map fun n : ℕ => phasor g (φ + n * (2 * Real.pi * f)) * x.getD n 0

@[simp] theorem onCarrier_length (g φ f : ℝ) (x : List (Cplx ℝ)) :
    (onCarrier g φ f x).length = x.length := by simp [onCarrier]

theorem onCarrier_getD (g φ f : ℝ) (x : List (Cplx ℝ)) (n : ℕ) :
    (onCarrier g φ f x).getD n 0 = phasor g (φ + n * (2 * Real.pi * f)) * x.getD n 0 := by
  rw [onCarrier, getD_map_range]
  split
  · rfl
  · rw [List.getD_eq_default _ _ (by omega), mul_zero]

/-- A symbol of the grid that the modulator uses. -/
def OnGrid (s : Cplx ℝ) : Prop := s ^ 4 = -1

theorem OnGrid.power {s : Cplx ℝ} (h : OnGrid s) : symbolPower s = 1 := by
  have hpow : symbolPower s ^ 4 = 1 := by
    have hmul : symbolPower (s ^ 4) = symbolPower s ^ 4 := by
      rw [show s ^ 4 = s * s * (s * s) by ring]
      simp only [symbolPower_mul]
      ring
    rw [← hmul, h]
    simp [symbolPower]
  have hnonneg : 0 ≤ symbolPower s := add_nonneg (mul_self_nonneg _) (mul_self_nonneg _)
  exact (pow_eq_one_iff_of_nonneg hnonneg (by decide)).mp hpow

theorem OnGrid.ne_zero {s : Cplx ℝ} (h : OnGrid s) : s ≠ 0 := by
  rintro rfl
  have := h.power
  simp [symbolPower] at this

theorem fourthPower_zero : fourthPower CarrierMath.exact (0 : Cplx ℝ) = 0 := by
  rw [fourthPower]
  dsimp only
  rw [if_pos (by norm_num)]

theorem fourthPower_grid {g α : ℝ} (hg : 1 / 10 ^ 6 < g) {x : Cplx ℝ} (hx : OnGrid x) :
    fourthPower CarrierMath.exact (phasor g α * x) = -phasor 1 (4 * α) := by
  have hpos : 0 < g := lt_trans (by norm_num) hg
  have hpower : symbolPower (phasor g α * x) = g ^ 2 := by
    rw [symbolPower_mul, phasor_power, hx.power, mul_one]
  have hloud : ¬ symbolPower (phasor g α * x) ≤ 1 / 10 ^ 12 := by
    rw [hpower, not_le]
    calc (1 : ℝ) / 10 ^ 12 = (1 / 10 ^ 6) ^ 2 := by norm_num
      _ < g ^ 2 := pow_lt_pow_left₀ hg (by norm_num) two_ne_zero
  have hsqrt : CarrierMath.exact.sqrt (symbolPower (phasor g α * x)) = g := by
    rw [hpower]
    exact Real.sqrt_sq hpos.le
  -- the symbol at unit length
  have hunit : (⟨(phasor g α * x).i / g, (phasor g α * x).q / g⟩ : Cplx ℝ)
      = phasor 1 α * x := by
    ext
    · simp only [phasor, Cplx.mul_i]
      field_simp
    · simp only [phasor, Cplx.mul_q]
      field_simp
  have hfourth : (phasor 1 α) ^ 4 = phasor 1 (4 * α) := by
    rw [show (phasor 1 α) ^ 4 = phasor 1 α * phasor 1 α * (phasor 1 α * phasor 1 α) by ring]
    simp only [phasor_mul]
    congr 1
    · ring
    · ring
  have hcode : fourthPower CarrierMath.exact (phasor g α * x)
      = (⟨(phasor g α * x).i / g, (phasor g α * x).q / g⟩ : Cplx ℝ) ^ 4 := by
    rw [symbolPower] at hsqrt hloud
    rw [fourthPower]
    dsimp only
    rw [if_neg hloud, hsqrt, show ∀ s : Cplx ℝ, s ^ 4 = s * s * (s * s) from fun s => by ring]
    ext
    · simp only [Cplx.mul_i, Cplx.mul_q]
      ring
    · simp only [Cplx.mul_i, Cplx.mul_q]
      ring
  rw [hcode, hunit, mul_pow, hx, hfourth, mul_neg, mul_one]

open scoped Classical in
/-- The symbols with a successor, both of them on the air. -/
noncomputable def livePairs (x : List (Cplx ℝ)) : ℕ :=
  #{k ∈ range (x.length - 1) | x.getD k 0 ≠ 0 ∧ x.getD (k + 1) 0 ≠ 0}

/-- **The blind estimate** of a carrier of up to an eighth of a turn a symbol is exact, whatever
the symbols, when enough of them are on the air. -/
theorem coarseBlindCarrier_tone {g φ f : ℝ} {x : List (Cplx ℝ)} (hg : 1 / 10 ^ 6 < g)
    (hlow : -(1 / 8) < f) (hhigh : f ≤ 1 / 8) (hgrid : ∀ s ∈ x, s = 0 ∨ OnGrid s)
    (hlive : 0 < livePairs x) (hcoherent : x.length - 1 ≤ 5 * livePairs x) :
    coarseBlindCarrier CarrierMath.exact (onCarrier g φ f x) = onCarrier g φ 0 x := by
  classical
  have hpi := Real.pi_pos
  have hgrid' : ∀ k, x.getD k 0 = 0 ∨ OnGrid (x.getD k 0) := by
    intro k
    by_cases hk : k < x.length
    · rw [List.getD_eq_getElem _ _ hk]
      exact hgrid _ (List.getElem_mem hk)
    · exact .inl (List.getD_eq_default _ _ (by omega))
  have hlen : 2 ≤ x.length := by
    by_contra hshort
    rw [livePairs, show x.length - 1 = 0 by omega] at hlive
    simp at hlive
  -- the fourth powers, and their products
  set z : ℕ → Cplx ℝ := fun n => fourthPower CarrierMath.exact ((onCarrier g φ f x).getD n 0)
    with hz
  have hfourth : ∀ k, z k
      = if x.getD k 0 ≠ 0 then -phasor 1 (4 * (φ + k * (2 * Real.pi * f))) else 0 := by
    intro k
    rw [hz]
    dsimp only
    rw [onCarrier_getD]
    rcases hgrid' k with h | h
    · rw [h, mul_zero, fourthPower_zero, if_neg (by simp)]
    · rw [fourthPower_grid hg h, if_pos h.ne_zero]
  have hcorr : lagSum z 1 x.length = phasor (livePairs x) (4 * (2 * Real.pi * f)) := by
    have hterm : ∀ k ∈ range (x.length - 1), z (1 + k) * (z k).conj
        = if x.getD k 0 ≠ 0 ∧ x.getD (k + 1) 0 ≠ 0 then phasor 1 (4 * (2 * Real.pi * f))
          else 0 := by
      intro k _
      rw [Nat.add_comm 1 k, hfourth k, hfourth (k + 1)]
      by_cases hk : x.getD k 0 ≠ 0
      · by_cases hk' : x.getD (k + 1) 0 ≠ 0
        · have hneg : ∀ s t : Cplx ℝ, -s * (-t).conj = s * t.conj := fun s t => by
            have hconj : (-t).conj = -t.conj := by ext <;> simp
            rw [hconj, neg_mul_neg]
          rw [if_pos hk, if_pos hk', if_pos ⟨hk, hk'⟩, hneg, phasor_conj, phasor_mul, one_mul]
          congr 1
          push_cast
          ring
        · rw [if_neg hk', if_neg (not_and_of_not_right _ hk'), zero_mul]
      · rw [if_neg hk, if_neg (not_and_of_not_left _ hk), Cplx.conj_zero, mul_zero]
    rw [lagSum_eq, sum_congr rfl hterm, ← sum_filter, livePairs]
    rw [sum_const, nsmul_eq_mul]
    ext <;> simp [phasor]
  have hpairs : (0 : ℝ) < livePairs x := by exact_mod_cast hlive
  have hcount : (0 : ℝ) < (x.length - 1 : ℕ) := by
    have : 0 < x.length - 1 := by omega
    exact_mod_cast this
  have hcoherence : ¬ CarrierMath.exact.sqrt
      ((lagSum z 1 x.length).i * (lagSum z 1 x.length).i
        + (lagSum z 1 x.length).q * (lagSum z 1 x.length).q) / ((x.length - 1 : ℕ) : ℝ) < 1 / 5 := by
    have hpow : (lagSum z 1 x.length).i * (lagSum z 1 x.length).i
        + (lagSum z 1 x.length).q * (lagSum z 1 x.length).q = (livePairs x : ℝ) ^ 2 := by
      rw [hcorr]
      exact phasor_power _ _
    have hsqrt : CarrierMath.exact.sqrt ((livePairs x : ℝ) ^ 2) = livePairs x :=
      Real.sqrt_sq hpairs.le
    have hreal : ((x.length - 1 : ℕ) : ℝ) ≤ 5 * livePairs x := by exact_mod_cast hcoherent
    rw [hpow, hsqrt, not_lt, le_div_iff₀ hcount]
    linarith
  have hfreq : CarrierMath.exact.atan2 (lagSum z 1 x.length).q (lagSum z 1 x.length).i
      / (8 * CarrierMath.exact.pi) = f := by
    rw [hcorr, atan2_phasor hpairs (by nlinarith) (by nlinarith)]
    show 4 * (2 * Real.pi * f) / (8 * Real.pi) = f
    field_simp
    ring
  have hrun : coarseBlindCarrier CarrierMath.exact (onCarrier g φ f x)
      = derotate CarrierMath.exact (onCarrier g φ f x) 0 x.length f 0 := by
    rw [coarseBlindCarrier]
    dsimp only
    rw [onCarrier_length, if_neg (by omega), ← hz, if_neg hcoherence, hfreq]
  rw [hrun]
  refine list_ext_getD 0 (by simp [derotate_length]) fun k hk => ?_
  rw [derotate_length] at hk
  rw [onCarrier_length] at hk
  rw [derotate_getD _ _ _ _ _ (by simpa using hk), if_pos ⟨Nat.zero_le k, by omega⟩,
    onCarrier_getD, onCarrier_getD, mul_right_comm, phasor_mul, mul_one]
  congr 2
  rw [Nat.sub_zero]
  ring

end OpenVlsnr
