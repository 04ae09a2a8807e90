import Mathlib.Analysis.SpecialFunctions.Trigonometric.Basic
import OpenVlsnr.DelayLine
import OpenVlsnr.Scrambler

/-!
# The pulse-shaping filter (`filter.c`)

`dvbs2x_rrc_filter_init` designs an odd number of taps that read the same backwards
(`rrcDesign_symm`); `filter_one` feeds one sample to two mirrored delay lines and folds the sum
along that symmetry.  The filter that `dvbs2x_rrc_filter_apply` and `dvbs2x_rrc_upsample` run is
the convolution of all samples since the last reset with the taps (`rrcFilter_convolves`), however
those came in.
-/

namespace OpenVlsnr

open Finset

/-! ### The design -/

/-- What the design uses of `math.h`. -/
structure RrcMath (R : Type*) [Field R] where
  pi : R
  sin : R → R
  cos : R → R
  sqrt : R → R
  sin_neg : ∀ x, sin (-x) = -sin x
  cos_neg : ∀ x, cos (-x) = cos x

/-- The exact functions. -/
noncomputable def RrcMath.exact : RrcMath ℝ where
  pi := Real.pi
  sin := Real.sin
  cos := Real.cos
  sqrt := Real.sqrt
  sin_neg := Real.sin_neg
  cos_neg := Real.cos_neg

section
variable {R : Type*} [Field R] [LinearOrder R] (math : RrcMath R)

/-- `rrc_impulse`. -/
def rrcImpulse (t rolloff : R) : R :=
  let r := rolloff
  if |t| < 1 / 10 ^ 10 then 1 - r + 4 * r / math.pi
  else
    let fourRT := 4 * r * t
    if |(|t| - 1 / (4 * r))| < 1 / 10 ^ 10 then
      r / math.sqrt 2 * ((1 + 2 / math.pi) * math.sin (math.pi / (4 * r)) +
        (1 - 2 / math.pi) * math.cos (math.pi / (4 * r)))
    else
      let num := math.sin (math.pi * t * (1 - r)) + fourRT * math.cos (math.pi * t * (1 + r))
      let den := math.pi * t * (1 - fourRT * fourRT)
      if |den| < 1 / 10 ^ 15 then 0 else num / den

/-- Where tap `i` samples the impulse. -/
def rrcTime (numTaps sps i : ℕ) : R :=
  ((i : R) - ((numTaps : R) - 1) / 2) / sps

/-- The coefficients before they are normalised. -/
def rrcTaps (numTaps sps : ℕ) (rolloff : R) : List R :=
  (List.range numTaps).map fun i => rrcImpulse math (rrcTime numTaps sps i) rolloff

/-- The coefficients of unit energy. -/
def rrcDesign (numTaps sps : ℕ) (rolloff : R) : List R :=
  let taps := rrcTaps math numTaps sps rolloff
  let energy := taps.foldl (fun energy c => energy + c * c) 0
  let norm := 1 / math.sqrt energy
  taps.map (· * norm)

end

/-- `struct dvbs2x_rrc_filter`. -/
structure RrcFilter (R : Type*) where
  coeffs : List R
  delayI : List R
  delayQ : List R
  numTaps : ℕ
  sps : ℕ
  rolloff : R
  delayIdx : ℕ

/-- What `dvbs2x_rrc_filter_init` accepts of the rate and the span. -/
def RrcAdmits (sps span : ℕ) : Prop :=
  2 ≤ sps ∧ span ≠ 0 ∧ span ≤ (filterMaxTaps - 1) / 2 / sps

instance (sps span : ℕ) : Decidable (RrcAdmits sps span) :=
  inferInstanceAs (Decidable (_ ∧ _ ∧ _))

/-- `dvbs2x_rrc_filter_init`: its return value and the filter.  The second bound on the taps
follows from the first one. -/
def rrcFilterInit {R : Type*} [Field R] [LinearOrder R] (math : RrcMath R) (flt : RrcFilter R)
    (rolloff : R) (sps span : ℕ) : ℤ × RrcFilter R :=
  if ¬RrcAdmits sps span ∨ rolloff < 1 / 20 ∨ 7 / 20 < rolloff then (-1, flt)
  else
    let numTaps := 2 * span * sps + 1
    if filterMaxTaps < numTaps then (-1, flt)
    else
      (0, { coeffs := rrcDesign math numTaps sps rolloff ++ flt.coeffs.drop numTaps
            delayI := List.replicate (filterMaxTaps * 2) 0
            delayQ := List.replicate (filterMaxTaps * 2) 0
            numTaps := numTaps
            sps := sps
            rolloff := rolloff
            delayIdx := 0 })

/-! ### Filtering -/

section
variable {R : Type*} [CommRing R]

/-- `dvbs2x_rrc_filter_reset`. -/
def rrcFilterReset (flt : RrcFilter R) : RrcFilter R :=
  { flt with
    delayI := List.replicate (filterMaxTaps * 2) 0
    delayQ := List.replicate (filterMaxTaps * 2) 0
    delayIdx := 0 }

/-- The dot product of `filter_one`: a pair of samples for each coefficient, and the middle one. -/
def filterDot (coeffs : List R) (nt idx : ℕ) (delay : List R) : R :=
  let d := fun k => delay.getD (idx + 1 + k) 0
  (List.range (nt / 2)).foldl (fun s k => s + (d (nt - 1 - k) + d k) * coeffs.getD k 0) 0
    + d (nt / 2) * coeffs.getD (nt / 2) 0

/-- `filter_one`. -/
def filterOne (flt : RrcFilter R) (x : Cplx R) : RrcFilter R × Cplx R :=
  let idx := flt.delayIdx
  let nt := flt.numTaps
  let delayI := DelayLine.store nt idx flt.delayI x.i
  let delayQ := DelayLine.store nt idx flt.delayQ x.q
  ({ flt with delayI := delayI, delayQ := delayQ, delayIdx := DelayLine.advance nt idx },
    ⟨filterDot flt.coeffs nt idx delayI, filterDot flt.coeffs nt idx delayQ⟩)

/-- `dvbs2x_rrc_filter_apply`. -/
def rrcFilterApply (flt : RrcFilter R) : List (Cplx R) → RrcFilter R × List (Cplx R)
  | [] => (flt, [])
  | x :: input =>
    let r := filterOne flt x
    let rest := rrcFilterApply r.1 input
    (rest.1, r.2 :: rest.2)

/-- One symbol of `dvbs2x_rrc_upsample`, from output `s` on. -/
def rrcUpsampleSymbol (x : Cplx R) : ℕ → ℕ → RrcFilter R → RrcFilter R × List (Cplx R)
  | 0, _, flt => (flt, [])
  | left + 1, s, flt =>
    let r := filterOne flt (if s = 0 then x else ⟨0, 0⟩)
    let rest := rrcUpsampleSymbol x left (s + 1) r.1
    (rest.1, r.2 :: rest.2)

/-- `dvbs2x_rrc_upsample`. -/
def rrcUpsample (flt : RrcFilter R) : List (Cplx R) → RrcFilter R × List (Cplx R)
  | [] => (flt, [])
  | x :: input =>
    let r := rrcUpsampleSymbol x flt.sps 0 flt
    let rest := rrcUpsample r.1 input
    (rest.1, r.2 ++ rest.2)

/-- The slots of a delay line that `filter_one` writes and reads. -/
def delayAccesses (nt idx : ℕ) : List ℕ :=
  idx :: (idx + nt) :: (idx + 1 + nt / 2) ::
    (List.range (nt / 2)).flatMap fun k => [idx + 1 + (nt - 1 - k), idx + 1 + k]

/-- The slots that a chunk of `n` samples uses. -/
def chunkAccesses (nt : ℕ) : ℕ → ℕ → List ℕ
  | _, 0 => []
  | idx, n + 1 => delayAccesses nt idx ++ chunkAccesses nt (DelayLine.advance nt idx) n

/-! ### Runs -/

inductive RrcOp (R : Type*) where
  | apply (input : List (Cplx R))
  | upsample (input : List (Cplx R))
  | reset

/-- A filter, the samples fed to it since the last reset, and what came out; `accesses` are the
slots used. -/
structure RrcTrace (R : Type*) where
  flt : RrcFilter R
  fed : List (Cplx R)
  out : List (Cplx R)
  accesses : List ℕ

/-- The samples of an upsampled chunk. -/
def zeroStuff (sps : ℕ) (input : List (Cplx R)) : List (Cplx R) :=
  input.flatMap fun x => (List.range sps).map fun s => if s = 0 then x else ⟨0, 0⟩

def rrcTraceStep (s : RrcTrace R) : RrcOp R → RrcTrace R
  | .apply input =>
    let r := rrcFilterApply s.flt input
    ⟨r.1, s.fed ++ input, s.out ++ r.2,
      s.accesses ++ chunkAccesses s.flt.numTaps s.flt.delayIdx input.length⟩
  | .upsample input =>
    let r := rrcUpsample s.flt input
    ⟨r.1, s.fed ++ zeroStuff s.flt.sps input, s.out ++ r.2,
      s.accesses ++ chunkAccesses s.flt.numTaps s.flt.delayIdx (input.length * s.flt.sps)⟩
  | .reset => ⟨rrcFilterReset s.flt, [], [], s.accesses⟩

/-- A run from a reset filter. -/
def rrcTrace (flt : RrcFilter R) (ops : List (RrcOp R)) : RrcTrace R :=
  ops.foldl rrcTraceStep ⟨rrcFilterReset flt, [], [], []⟩

/-- FIR convolution: output `n` for the stream `x`. -/
def fir (coeffs : List R) (nt : ℕ) (x : List R) (n : ℕ) : R :=
  ∑ k ∈ range nt, coeffs.getD k 0 * DelayLine.lag x n k

def firOutput (coeffs : List R) (nt : ℕ) (fed : List (Cplx R)) (n : ℕ) : Cplx R :=
  ⟨fir coeffs nt (fed.map Cplx.i) n, fir coeffs nt (fed.map Cplx.q) n⟩

end

/-! ### The designed taps -/

/-- A filter whose taps an initialisation may have designed. -/
structure RrcReady {R : Type*} [Zero R] (flt : RrcFilter R) (sps span : ℕ) : Prop where
  admits : RrcAdmits sps span
  numTaps_eq : flt.numTaps = 2 * span * sps + 1
  sps_eq : flt.sps = sps
  symm : ∀ k < flt.numTaps, flt.coeffs.getD (flt.numTaps - 1 - k) 0 = flt.coeffs.getD k 0

/-- The taps fit in the array, and so does their second half. -/
theorem RrcAdmits.numTaps_le {sps span : ℕ} (h : RrcAdmits sps span) :
    2 * span * sps + 1 ≤ filterMaxTaps := by
  obtain ⟨hsps, -, hspan⟩ := h
  have hle : span * sps ≤ (filterMaxTaps - 1) / 2 := (Nat.le_div_iff_mul_le (by omega)).mp hspan
  have hmax : 2 * ((filterMaxTaps - 1) / 2) + 1 ≤ filterMaxTaps := by decide
  rw [Nat.mul_assoc]
  omega

section
variable {R : Type*} [Field R] [LinearOrder R] [IsStrictOrderedRing R] (math : RrcMath R)

omit [IsStrictOrderedRing R] in
/-- The impulse is even. -/
theorem rrcImpulse_neg (t rolloff : R) :
    rrcImpulse math (-t) rolloff = rrcImpulse math t rolloff := by
  have hnum : math.sin (math.pi * -t * (1 - rolloff))
      + 4 * rolloff * -t * math.cos (math.pi * -t * (1 + rolloff))
      = -(math.sin (math.pi * t * (1 - rolloff))
        + 4 * rolloff * t * math.cos (math.pi * t * (1 + rolloff))) := by
    rw [mul_neg, neg_mul, neg_mul, math.sin_neg, math.cos_neg]
    ring
  have hden : math.pi * -t * (1 - 4 * rolloff * -t * (4 * rolloff * -t))
      = -(math.pi * t * (1 - 4 * rolloff * t * (4 * rolloff * t))) := by ring
  unfold rrcImpulse
  dsimp only
  rw [hnum, hden, abs_neg, abs_neg, neg_div_neg_eq]

/-- Taps at the same distance from the middle sample it at opposite times. -/
theorem rrcTime_reverse {numTaps k : ℕ} (hk : k < numTaps) (sps : ℕ) :
    (rrcTime numTaps sps (numTaps - 1 - k) : R) = -rrcTime numTaps sps k := by
  rw [rrcTime, rrcTime, Nat.cast_sub (by omega), Nat.cast_sub (by omega), Nat.cast_one, ← neg_div]
  ring

/-- **The designed coefficients read the same backwards.** -/
theorem rrcDesign_symm (numTaps sps : ℕ) (rolloff : R) {k : ℕ} (hk : k < numTaps) :
    (rrcDesign math numTaps sps rolloff).getD (numTaps - 1 - k) 0
      = (rrcDesign math numTaps sps rolloff).getD k 0 := by
  unfold rrcDesign rrcTaps
  dsimp only
  rw [List.map_map, getD_map_range, getD_map_range, if_pos (by omega), if_pos hk]
  simp only [Function.comp_apply, rrcTime_reverse hk, rrcImpulse_neg]

/-- **A successful initialisation** designs symmetric taps, and leaves the filter reset. -/
theorem rrcFilterInit_ready {flt flt' : RrcFilter R} {rolloff : R} {sps span : ℕ}
    (h : rrcFilterInit math flt rolloff sps span = (0, flt')) :
    RrcReady flt' sps span ∧ rrcFilterReset flt' = flt' := by
  unfold rrcFilterInit at h
  dsimp only at h
  split_ifs at h with hbad hmany
  · exact absurd (congrArg Prod.fst h) (show (-1 : ℤ) ≠ 0 by decide)
  · exact absurd (congrArg Prod.fst h) (show (-1 : ℤ) ≠ 0 by decide)
  obtain rfl := (Prod.ext_iff.mp h).2
  push Not at hbad
  refine ⟨⟨hbad.1, rfl, rfl, fun k hk => ?_⟩, rfl⟩
  dsimp only at hk ⊢
  have hlen : (rrcDesign math (2 * span * sps + 1) sps rolloff).length = 2 * span * sps + 1 := by
    simp [rrcDesign, rrcTaps]
  rw [List.getD_append _ _ _ _ (by omega), List.getD_append _ _ _ _ (by omega),
    rrcDesign_symm math _ _ _ hk]

end

/-! ### One sample -/

section
variable {R : Type*} [CommRing R]

/-- **The folded sum is the convolution**, behind a store. -/
theorem filterDot_eq {coeffs : List R} {half idx : ℕ} {delay fed : List R} {m : ℕ}
    (hsymm : ∀ k < 2 * half + 1, coeffs.getD (2 * half - k) 0 = coeffs.getD k 0)
    (h : DelayLine.Loaded (2 * half + 1) idx delay fed m) :
    filterDot coeffs (2 * half + 1) idx delay = fir coeffs (2 * half + 1) fed m := by
  have hhalf : (2 * half + 1) / 2 = half := by omega
  have hlast : 2 * half + 1 - 1 = 2 * half := by omega
  unfold filterDot fir
  dsimp only
  rw [hhalf, hlast, DelayLine.foldl_add_eq_sum, zero_add,
    DelayLine.folded_sum half (fun k => coeffs.getD k 0) (fun k => delay.getD (idx + 1 + k) 0)
      fun k hk => hsymm k (by omega)]
  refine sum_congr rfl fun k hk => ?_
  have hread := h.read (mem_range.mp hk)
  rw [hlast] at hread
  rw [hread]

/-- Later samples do not change an output. -/
theorem fir_append (coeffs : List R) (nt : ℕ) {x rest : List R} {n : ℕ} (hn : n < x.length) :
    fir coeffs nt (x ++ rest) n = fir coeffs nt x n :=
  sum_congr rfl fun k _ => by rw [DelayLine.lag_append (by omega)]

theorem firOutput_append (coeffs : List R) (nt : ℕ) {fed : List (Cplx R)}
    (rest : List (Cplx R)) {n : ℕ} (hn : n < fed.length) :
    firOutput coeffs nt (fed ++ rest) n = firOutput coeffs nt fed n := by
  unfold firOutput
  rw [List.map_append, List.map_append, fir_append _ _ (by rwa [List.length_map]),
    fir_append _ _ (by rwa [List.length_map])]

/-- A filter with the taps of `flt₀` behind the samples `fed`. -/
structure FilterAt (flt₀ flt : RrcFilter R) (fed : List (Cplx R)) : Prop where
  coeffs_eq : flt.coeffs = flt₀.coeffs
  numTaps_eq : flt.numTaps = flt₀.numTaps
  sps_eq : flt.sps = flt₀.sps
  holdsI : DelayLine.Holds flt₀.numTaps flt.delayIdx flt.delayI (fed.map Cplx.i)
  holdsQ : DelayLine.Holds flt₀.numTaps flt.delayIdx flt.delayQ (fed.map Cplx.q)

variable {flt₀ flt : RrcFilter R} {sps span : ℕ} {fed : List (Cplx R)}

/-- **A reset filter.** -/
theorem FilterAt.reset (h₀ : RrcReady flt₀ sps span) (hcoeffs : flt.coeffs = flt₀.coeffs)
    (hnum : flt.numTaps = flt₀.numTaps) (hsps : flt.sps = flt₀.sps) :
    FilterAt flt₀ (rrcFilterReset flt) [] := by
  have hpos : 0 < flt₀.numTaps := by rw [h₀.numTaps_eq]; omega
  have hfit : 2 * flt₀.numTaps ≤ filterMaxTaps * 2 := by
    have := h₀.admits.numTaps_le
    rw [h₀.numTaps_eq]
    omega
  exact ⟨hcoeffs, hnum, hsps, .cleared hpos hfit, .cleared hpos hfit⟩

/-- **One sample**: the next output of the convolution. -/
theorem filterOne_spec (h₀ : RrcReady flt₀ sps span) (h : FilterAt flt₀ flt fed) (x : Cplx R) :
    FilterAt flt₀ (filterOne flt x).1 (fed ++ [x]) ∧
      (filterOne flt x).2 = firOutput flt₀.coeffs flt₀.numTaps (fed ++ [x]) fed.length := by
  have hodd : flt₀.numTaps = 2 * (span * sps) + 1 := by rw [h₀.numTaps_eq, Nat.mul_assoc]
  have hsymm := h₀.symm
  have hi := h.holdsI.store x.i
  have hq := h.holdsQ.store x.q
  rw [List.length_map] at hi hq
  unfold filterOne firOutput
  dsimp only
  rw [h.numTaps_eq, h.coeffs_eq, List.map_append, List.map_append]
  refine ⟨⟨rfl, rfl, h.sps_eq, ?_, ?_⟩, ?_⟩
  · rw [List.map_append]
    exact hi.advance
  · rw [List.map_append]
    exact hq.advance
  · rw [hodd] at hi hq hsymm ⊢
    rw [filterDot_eq hsymm hi, filterDot_eq hsymm hq]
    rfl

/-! ### Chunks -/

/-- **A chunk**, by induction on its samples. -/
theorem rrcFilterApply_spec (h₀ : RrcReady flt₀ sps span) (input : List (Cplx R))
    (h : FilterAt flt₀ flt fed) :
    FilterAt flt₀ (rrcFilterApply flt input).1 (fed ++ input) ∧
      (rrcFilterApply flt input).2 = (List.range input.length).map fun n =>
        firOutput flt₀.coeffs flt₀.numTaps (fed ++ input) (fed.length + n) := by
  induction input generalizing flt fed with
  | nil => simpa [rrcFilterApply] using h
  | cons x input ih =>
    obtain ⟨hstep, hout⟩ := filterOne_spec h₀ h x
    obtain ⟨hrest, houts⟩ := ih hstep
    rw [List.append_assoc, List.singleton_append] at hrest houts
    refine ⟨hrest, ?_⟩
    rw [rrcFilterApply]
    dsimp only
    rw [houts, hout, List.length_cons, List.range_succ_eq_map, List.map_cons, List.map_map,
      ← firOutput_append _ _ input (by simp), List.append_assoc, List.singleton_append]
    congr 1
    refine List.map_congr_left fun n _ => ?_
    simp only [List.length_append, List.length_singleton, Function.comp_apply]
    congr 1
    omega

theorem rrcFilterApply_append (flt : RrcFilter R) (first second : List (Cplx R)) :
    rrcFilterApply flt (first ++ second)
      = ((rrcFilterApply (rrcFilterApply flt first).1 second).1, (rrcFilterApply flt first).2
        ++ (rrcFilterApply (rrcFilterApply flt first).1 second).2) := by
  induction first generalizing flt with
  | nil => rfl
  | cons x first ih => simp [rrcFilterApply, ih]

theorem rrcFilterApply_sps (flt : RrcFilter R) (input : List (Cplx R)) :
    (rrcFilterApply flt input).1.sps = flt.sps := by
  induction input generalizing flt with
  | nil => rfl
  | cons x input ih => exact ih (filterOne flt x).1

theorem rrcUpsampleSymbol_eq (x : Cplx R) (left s : ℕ) (flt : RrcFilter R) :
    rrcUpsampleSymbol x left s flt = rrcFilterApply flt
      ((List.range' s left).map fun s => if s = 0 then x else ⟨0, 0⟩) := by
  induction left generalizing s flt with
  | zero => rfl
  | succ left ih => simp [rrcUpsampleSymbol, List.range'_succ, rrcFilterApply, ih]

/-- **Upsampling** is filtering with zeros stuffed in. -/
theorem rrcUpsample_eq (flt : RrcFilter R) (input : List (Cplx R)) :
    rrcUpsample flt input = rrcFilterApply flt (zeroStuff flt.sps input) := by
  induction input generalizing flt with
  | nil => rfl
  | cons x input ih =>
    rw [rrcUpsample]
    rw [ih, rrcUpsampleSymbol_eq, rrcFilterApply_sps, ← List.range_eq_range', zeroStuff, zeroStuff,
      List.flatMap_cons, rrcFilterApply_append]

/-! ### Slots -/

theorem delayAccesses_lt {nt idx : ℕ} (hidx : idx < nt) (hnt : nt ≤ filterMaxTaps) :
    ∀ a ∈ delayAccesses nt idx, a < 2 * filterMaxTaps := by
  intro a ha
  simp only [delayAccesses, List.mem_cons, List.mem_flatMap, List.mem_range, List.not_mem_nil,
    or_false] at ha
  obtain rfl | rfl | rfl | ⟨k, hk, rfl | rfl⟩ := ha <;> omega

theorem advance_lt {nt idx : ℕ} (hidx : idx < nt) : DelayLine.advance nt idx < nt := by
  unfold DelayLine.advance
  split_ifs <;> omega

theorem chunkAccesses_lt {nt : ℕ} (hnt : nt ≤ filterMaxTaps) (n : ℕ) {idx : ℕ} (hidx : idx < nt) :
    ∀ a ∈ chunkAccesses nt idx n, a < 2 * filterMaxTaps := by
  induction n generalizing idx with
  | zero => exact fun a ha => absurd ha List.not_mem_nil
  | succ n ih =>
    intro a ha
    obtain ha | ha := List.mem_append.mp ha
    · exact delayAccesses_lt hidx hnt a ha
    · exact ih (advance_lt hidx) a ha

/-! ### Runs from a reset -/

/-- What holds behind every operation. -/
structure TraceInv (flt₀ : RrcFilter R) (s : RrcTrace R) : Prop where
  at_fed : FilterAt flt₀ s.flt s.fed
  out_eq : s.out = (List.range s.fed.length).map (firOutput flt₀.coeffs flt₀.numTaps s.fed)
  accesses_lt : ∀ a ∈ s.accesses, a < 2 * filterMaxTaps

/-- A chunk that has been filtered. -/
theorem TraceInv.chunk (h₀ : RrcReady flt₀ sps span) {s : RrcTrace R} (h : TraceInv flt₀ s)
    (input : List (Cplx R)) {n : ℕ} :
    TraceInv flt₀ ⟨(rrcFilterApply s.flt input).1, s.fed ++ input,
      s.out ++ (rrcFilterApply s.flt input).2,
      s.accesses ++ chunkAccesses s.flt.numTaps s.flt.delayIdx n⟩ := by
  obtain ⟨hat, houts⟩ := rrcFilterApply_spec h₀ input h.at_fed
  refine ⟨hat, ?_, fun a ha => ?_⟩
  · rw [houts, h.out_eq, List.length_append, List.range_add, List.map_append, List.map_map]
    refine congrArg₂ (· ++ ·) (List.map_congr_left fun n hn => ?_) rfl
    exact (firOutput_append _ _ _ (List.mem_range.mp hn)).symm
  · obtain ha | ha := List.mem_append.mp ha
    · exact h.accesses_lt a ha
    · have hnt : flt₀.numTaps ≤ filterMaxTaps := by
        rw [h₀.numTaps_eq]
        exact h₀.admits.numTaps_le
      rw [h.at_fed.numTaps_eq] at ha
      exact chunkAccesses_lt hnt n h.at_fed.holdsI.idx_lt a ha

/-- **One operation.** -/
theorem TraceInv.step (h₀ : RrcReady flt₀ sps span) {s : RrcTrace R} (h : TraceInv flt₀ s)
    (op : RrcOp R) : TraceInv flt₀ (rrcTraceStep s op) := by
  cases op with
  | apply input => exact h.chunk h₀ input
  | upsample input =>
    show TraceInv flt₀ ⟨(rrcUpsample s.flt input).1, _, s.out ++ (rrcUpsample s.flt input).2, _⟩
    rw [rrcUpsample_eq]
    exact h.chunk h₀ (zeroStuff s.flt.sps input)
  | reset =>
    obtain ⟨hcoeffs, hnum, hsps, -, -⟩ := h.at_fed
    exact ⟨.reset h₀ hcoeffs hnum hsps, rfl, h.accesses_lt⟩

theorem TraceInv.run (h₀ : RrcReady flt₀ sps span) (ops : List (RrcOp R)) {s : RrcTrace R}
    (h : TraceInv flt₀ s) : TraceInv flt₀ (ops.foldl rrcTraceStep s) := by
  induction ops generalizing s with
  | nil => exact h
  | cons op ops ih => exact ih (h.step h₀ op)

theorem rrcTrace_inv (h₀ : RrcReady flt₀ sps span) (ops : List (RrcOp R)) :
    TraceInv flt₀ (rrcTrace flt₀ ops) :=
  TraceInv.run h₀ ops ⟨.reset h₀ rfl rfl rfl, rfl, fun _ ha => absurd ha List.not_mem_nil⟩

/-- **The filter is the convolution.**  For any admitted number of symmetric taps and any run of
chunks, zero-stuffed ones and resets, over any commutative ring: output `n` since the last reset is
the convolution of the taps with the samples fed since then.  So the outputs do not depend on how
those were cut into chunks, and no slot beyond the delay lines is used. -/
theorem rrcFilter_convolves (h : RrcReady flt₀ sps span) (ops : List (RrcOp R)) :
    (rrcTrace flt₀ ops).out = (List.range (rrcTrace flt₀ ops).fed.length).map
        (firOutput flt₀.coeffs flt₀.numTaps (rrcTrace flt₀ ops).fed) ∧
      (∀ ops', (rrcTrace flt₀ ops').fed = (rrcTrace flt₀ ops).fed →
        (rrcTrace flt₀ ops').out = (rrcTrace flt₀ ops).out) ∧
      ∀ a ∈ (rrcTrace flt₀ ops).accesses, a < 2 * filterMaxTaps := by
  have hrun := rrcTrace_inv h ops
  refine ⟨hrun.out_eq, fun ops' hfed => ?_, hrun.accesses_lt⟩
  rw [(rrcTrace_inv h ops').out_eq, hrun.out_eq, hfed]

end

/-- Five taps over the integers, two samples for each symbol. -/
def fiveTaps : RrcFilter ℤ where
  coeffs := [1, 2, 3, 2, 1]
  delayI := []
  delayQ := []
  numTaps := 5
  sps := 2
  rolloff := 0
  delayIdx := 3

theorem fiveTaps_ready : RrcReady fiveTaps 2 1 :=
  ⟨by decide, rfl, rfl, by decide⟩

theorem rrcFilter_convolves_fiveTaps :
    let run := rrcTrace fiveTaps [.upsample [⟨1, 0⟩, ⟨0, 1⟩], .apply [⟨5, 0⟩]]
    run.out = (List.range run.fed.length).map (firOutput fiveTaps.coeffs fiveTaps.numTaps run.fed) ∧
      run.fed.length = 5 :=
  ⟨(rrcFilter_convolves fiveTaps_ready [.upsample [⟨1, 0⟩, ⟨0, 1⟩], .apply [⟨5, 0⟩]]).1, by decide⟩

end OpenVlsnr
