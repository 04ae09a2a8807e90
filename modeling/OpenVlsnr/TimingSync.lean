import OpenVlsnr.Scrambler
import Mathlib.Algebra.Order.Floor.Ring

/-!
# Symbol timing recovery (`sync_timing.c`)

`dvbs2x_timing_sync_process`: the early exit, the resampling loop with its Gardner detector and
the cubic interpolator.  The phase and the slope that the spectral line gives are parameters, with
the bounds that the code enforces on them (`TimingEstimate`).  The loop itself may go on for ever
on adversarial errors, so it runs on fuel: `timingSyncProcess ... fuel` is what has been written
to `out` after at most `fuel` rounds.

* `timingLoop_driven` - a run is determined by the errors that its detector returns;
* `nextPos_drivenLoop` - the instants of a run as a closed form of those errors;
* `timingSync_symbols_iff` - when the symbols fit in what the callers allocate.
-/

namespace OpenVlsnr

/-! ### Interpolation -/

/-- The four indices that `cubic_interp` reads. -/
structure CubicTaps where
  im1 : ℤ
  i : ℤ
  ip1 : ℤ
  ip2 : ℤ
  deriving DecidableEq, Repr

section
variable {R : Type*} [Field R] [LinearOrder R] [FloorRing R]

def cubicTaps (len : ℕ) (pos : R) : CubicTaps :=
  let i := ⌊pos⌋
  { im1 := if i - 1 < 0 then 0 else i - 1
    i := if i < 0 then 0 else i
    ip1 := if (len : ℤ) ≤ i + 1 then len - 1 else i + 1
    ip2 := if (len : ℤ) ≤ i + 2 then len - 1 else i + 2 }

/-- `x[k]`.  The C code reads whatever lies outside of the array. -/
def sampleAt (x : List (Cplx R)) (k : ℤ) : Cplx R :=
  if 0 ≤ k then x.getD k.toNat ⟨0, 0⟩ else ⟨0, 0⟩

/-- 4-point cubic (Catmull-Rom) interpolation at fractional index `pos`. -/
def cubicInterp (x : List (Cplx R)) (pos : R) : Cplx R :=
  let f := pos - ⌊pos⌋
  let f2 := f * f
  let f3 := f2 * f
  let taps := cubicTaps x.length pos
  let c0 := -(1 / 2) * f3 + f2 - 1 / 2 * f
  let c1 := 3 / 2 * f3 - 5 / 2 * f2 + 1
  let c2 := -(3 / 2) * f3 + 2 * f2 + 1 / 2 * f
  let c3 := 1 / 2 * f3 - 1 / 2 * f2
  let a := sampleAt x taps.im1
  let b := sampleAt x taps.i
  let c := sampleAt x taps.ip1
  let d := sampleAt x taps.ip2
  ⟨c0 * a.i + c1 * b.i + c2 * c.i + c3 * d.i, c0 * a.q + c1 * b.q + c2 * c.q + c3 * d.q⟩

end

/-! ### The estimate and the loop -/

section
variable (R : Type*) [Field R] [LinearOrder R]

-- one proof for the literal of `TIMING_MAX_DRIFT`
instance atLeastTwo_fiveHundred : Nat.AtLeastTwo 500 := inferInstance

/-- What the estimator may yield: `off` has been brought into `[1, 1 + sps)`, and a slope beyond
`TIMING_MAX_DRIFT` is dropped. -/
structure TimingEstimate (sps : ℕ) where
  off : R
  drift : R
  one_le_off : 1 ≤ off
  off_lt : off < 1 + sps
  abs_drift_le : |drift| ≤ 1 / 500

/-- The variables of the loop. -/
@[ext]
structure TimingLoop where
  pos : R
  omega : R
  integrator : R

end

section
variable {R : Type*} [Field R] [LinearOrder R]

def timingStart {sps : ℕ} (est : TimingEstimate R sps) : TimingLoop R :=
  ⟨est.off / (1 - est.drift), sps / (1 - est.drift), 0⟩

/-- The clamp to `TIMING_MAX_DRIFT * sps`. -/
def clampIntegrator (sps : ℕ) (integrator : R) : R :=
  if 1 / 500 * (sps : R) < integrator then 1 / 500 * sps
  else if integrator < -(1 / 500) * sps then -(1 / 500) * sps
  else integrator

/-- One round, from the error on. -/
def timingAdvance {sps : ℕ} (est : TimingEstimate R sps) (st : TimingLoop R) (error : R) :
    TimingLoop R :=
  let integrator := clampIntegrator sps (st.integrator + 1 / 10 ^ 7 * error)
  { pos := st.pos + st.omega + 5 / 1000 * error
    omega := sps / (1 - est.drift) + integrator
    integrator := integrator }

/-- `next_pos`. -/
def TimingLoop.nextPos (st : TimingLoop R) : R :=
  st.pos + st.omega

/-- The normalized Gardner detector. -/
def gardnerError (previous middle current : Cplx R) : R :=
  let power := previous.i * previous.i + previous.q * previous.q +
    current.i * current.i + current.q * current.q
  ((previous.i - current.i) * middle.i + (previous.q - current.q) * middle.q) /
    (power + 1 / 10 ^ 12)

variable [FloorRing R]

/-- The error of round `k`, the detector being a parameter. -/
def roundError (detector : ℕ → Cplx R → Cplx R → Cplx R → R) (input : List (Cplx R)) (k : ℕ)
    (st : TimingLoop R) (previous : Cplx R) : R :=
  detector k previous (cubicInterp input (st.pos + st.omega / 2)) (cubicInterp input st.nextPos)

/-- The rounds of the loop, at most `fuel` of them: the symbols they write. -/
def timingLoop (detector : ℕ → Cplx R → Cplx R → Cplx R → R) {sps : ℕ} (est : TimingEstimate R sps)
    (input : List (Cplx R)) : ℕ → ℕ → TimingLoop R → Cplx R → List (Cplx R)
  | 0, _, _, _ => []
  | fuel + 1, k, st, previous =>
    if (input.length : R) ≤ st.nextPos + 2 then []
    else
      let st' := timingAdvance est st (roundError detector input k st previous)
      let current := cubicInterp input st'.pos
      current :: timingLoop detector est input fuel (k + 1) st' current

/-- `dvbs2x_timing_sync_process`, given the estimate. -/
def timingSyncProcess (detector : ℕ → Cplx R → Cplx R → Cplx R → R) {sps : ℕ}
    (est : TimingEstimate R sps) (input : List (Cplx R)) (fuel : ℕ) : List (Cplx R) :=
  if sps < 2 ∨ input.length < sps then input
  else
    let st := timingStart est
    if st.pos + 2 < input.length then
      let previous := cubicInterp input st.pos
      previous :: timingLoop detector est input fuel 0 st previous
    else
      -- `previous` is not set here, and not read: the loop ends at once
      timingLoop detector est input fuel 0 st ⟨0, 0⟩

/-! ### Runs driven by their errors -/

/-- The rounds without the test that ends the loop: variables and last symbol. -/
def timingTrace (detector : ℕ → Cplx R → Cplx R → Cplx R → R) {sps : ℕ} (est : TimingEstimate R sps)
    (input : List (Cplx R)) (previous : Cplx R) : ℕ → TimingLoop R × Cplx R
  | 0 => (timingStart est, previous)
  | k + 1 =>
    let last := timingTrace detector est input previous k
    let st' := timingAdvance est last.1 (roundError detector input k last.1 last.2)
    (st', cubicInterp input st'.pos)

/-- The errors of a run. -/
def traceError (detector : ℕ → Cplx R → Cplx R → Cplx R → R) {sps : ℕ} (est : TimingEstimate R sps)
    (input : List (Cplx R)) (previous : Cplx R) (k : ℕ) : R :=
  let last := timingTrace detector est input previous k
  roundError detector input k last.1 last.2

theorem timingLoop_trace (detector : ℕ → Cplx R → Cplx R → Cplx R → R) {sps : ℕ}
    (est : TimingEstimate R sps) (input : List (Cplx R)) (previous : Cplx R) (fuel k : ℕ) :
    let last := timingTrace detector est input previous k
    timingLoop detector est input fuel k last.1 last.2
      = timingLoop (fun k _ _ _ => traceError detector est input previous k) est input fuel k
          last.1 last.2 := by
  induction fuel generalizing k with
  | zero => rfl
  | succ fuel ih =>
    dsimp only [timingLoop]
    split_ifs
    · rfl
    · exact congrArg (List.cons _) (ih (k + 1))

/-- **A run is determined by its errors**: whatever the detector, the symbols are those of a run
that is given a sequence of errors. -/
theorem timingLoop_driven (detector : ℕ → Cplx R → Cplx R → Cplx R → R) {sps : ℕ}
    (est : TimingEstimate R sps) (input : List (Cplx R)) :
    ∃ err : ℕ → R, ∀ fuel, timingSyncProcess detector est input fuel
      = timingSyncProcess (fun k _ _ _ => err k) est input fuel := by
  by_cases hfirst : (timingStart est).pos + 2 < (input.length : R)
  · refine ⟨traceError detector est input (cubicInterp input (timingStart est).pos), fun fuel => ?_⟩
    have h := timingLoop_trace detector est input (cubicInterp input (timingStart est).pos) fuel 0
    unfold timingSyncProcess
    dsimp only
    split_ifs
    · rfl
    · exact congrArg (List.cons _) h
  · refine ⟨traceError detector est input ⟨0, 0⟩, fun fuel => ?_⟩
    have h := timingLoop_trace detector est input ⟨0, 0⟩ fuel 0
    unfold timingSyncProcess
    dsimp only
    split_ifs
    · rfl
    · exact h

/-! ### The instants of a driven run -/

/-- The clamped integral of the errors. -/
def timingIntegral (sps : ℕ) (err : ℕ → R) : ℕ → R
  | 0 => 0
  | k + 1 => clampIntegrator sps (timingIntegral sps err k + 1 / 10 ^ 7 * err k)

/-- What `j` errors have moved the next instant by: the proportional part of each, and the
integral after each. -/
def timingCorrection (sps : ℕ) (err : ℕ → R) (j : ℕ) : R :=
  ∑ i ∈ Finset.range j, (5 / 1000 * err i + timingIntegral sps err (i + 1))

def drivenLoop {sps : ℕ} (est : TimingEstimate R sps) (err : ℕ → R) : ℕ → TimingLoop R
  | 0 => timingStart est
  | k + 1 => timingAdvance est (drivenLoop est err k) (err k)

omit [FloorRing R] in
theorem integrator_drivenLoop {sps : ℕ} (est : TimingEstimate R sps) (err : ℕ → R) (k : ℕ) :
    (drivenLoop est err k).integrator = timingIntegral sps err k := by
  induction k with
  | zero => rfl
  | succ k ih =>
    show clampIntegrator sps ((drivenLoop est err k).integrator + _) = _
    rw [ih, timingIntegral]

omit [FloorRing R] in
theorem omega_drivenLoop {sps : ℕ} (est : TimingEstimate R sps) (err : ℕ → R) (k : ℕ) :
    (drivenLoop est err k).omega = sps / (1 - est.drift) + timingIntegral sps err k := by
  cases k with
  | zero => exact (add_zero _).symm
  | succ k =>
    rw [← integrator_drivenLoop est err (k + 1)]
    rfl

omit [FloorRing R] in
/-- **The instants in closed form**: nominal periods stretched by the drift, plus the correction
that the errors add up to. -/
theorem nextPos_drivenLoop {sps : ℕ} (est : TimingEstimate R sps) (err : ℕ → R) (j : ℕ) :
    (drivenLoop est err j).nextPos
      = (est.off + (j + 1) * sps) / (1 - est.drift) + timingCorrection sps err j := by
  induction j with
  | zero =>
    simp [TimingLoop.nextPos, drivenLoop, timingStart, timingCorrection, add_div]
  | succ j ih =>
    have hpos : (drivenLoop est err (j + 1)).pos
        = (drivenLoop est err j).nextPos + 5 / 1000 * err j := rfl
    rw [TimingLoop.nextPos, hpos, omega_drivenLoop, ih, timingCorrection, timingCorrection,
      Finset.sum_range_succ]
    push_cast
    ring

/-! ### How many symbols -/

theorem lt_length_timingLoop {sps : ℕ} (est : TimingEstimate R sps) (err : ℕ → R)
    (input : List (Cplx R)) (fuel k : ℕ) (previous : Cplx R) (j : ℕ) :
    j < (timingLoop (fun k _ _ _ => err k) est input fuel k (drivenLoop est err k) previous).length
      ↔ j < fuel ∧ ∀ i ≤ j, (drivenLoop est err (k + i)).nextPos + 2 < input.length := by
  induction fuel generalizing k previous j with
  | zero => simp [timingLoop]
  | succ fuel ih =>
    rw [timingLoop]
    split_ifs with hstop
    · refine ⟨fun h => absurd h (Nat.not_lt_zero j), fun h => absurd hstop (not_le.mpr ?_)⟩
      exact h.2 0 (Nat.zero_le j)
    · cases j with
      | zero =>
        refine ⟨fun _ => ⟨Nat.succ_pos fuel, fun i hi => ?_⟩, fun _ => Nat.succ_pos _⟩
        obtain rfl := Nat.le_zero.mp hi
        exact not_le.mp hstop
      | succ j =>
        have hnext := ih (k + 1) (cubicInterp input (drivenLoop est err (k + 1)).pos) j
        refine Nat.succ_lt_succ_iff.trans (hnext.trans ?_)
        constructor
        · rintro ⟨hfuel, hgo⟩
          refine ⟨Nat.succ_lt_succ hfuel, fun i hi => ?_⟩
          cases i with
          | zero => exact not_le.mp hstop
          | succ i =>
            have := hgo i (Nat.le_of_succ_le_succ hi)
            rwa [Nat.add_right_comm] at this
        · rintro ⟨hfuel, hgo⟩
          refine ⟨Nat.lt_of_succ_lt_succ hfuel, fun i hi => ?_⟩
          rw [Nat.add_right_comm]
          exact hgo (i + 1) (Nat.succ_le_succ hi)

/-- At most `m` rounds, however much fuel: one of the first `m + 1` instants is past the end. -/
theorem length_timingLoop_le_iff {sps : ℕ} (est : TimingEstimate R sps) (err : ℕ → R)
    (input : List (Cplx R)) (previous : Cplx R) (m : ℕ) :
    (∀ fuel, (timingLoop (fun k _ _ _ => err k) est input fuel 0 (timingStart est)
        previous).length ≤ m)
      ↔ ∃ j ≤ m, (input.length : R) ≤ (drivenLoop est err j).nextPos + 2 := by
  have hlong := fun fuel => lt_length_timingLoop est err input fuel 0 previous m
  constructor
  · intro hle
    by_contra hpast
    push Not at hpast
    refine absurd (hle (m + 1)) (not_le.mpr ((hlong (m + 1)).mpr ⟨Nat.lt_succ_self m, ?_⟩))
    intro i hi
    rw [Nat.zero_add]
    exact hpast i hi
  · rintro ⟨j, hj, hpast⟩ fuel
    by_contra hlt
    have := ((hlong fuel).mp (not_le.mp hlt)).2 j hj
    rw [Nat.zero_add] at this
    exact absurd hpast (not_le.mpr this)

end

section
variable {R : Type*} [Field R] [LinearOrder R] [IsStrictOrderedRing R]

theorem TimingEstimate.one_sub_drift_pos {sps : ℕ} (est : TimingEstimate R sps) :
    0 < 1 - est.drift := by
  have h := (abs_le.mp est.abs_drift_le).2
  linarith

/-- The second instant is not before the first. -/
theorem TimingEstimate.pos_le_nextPos {sps : ℕ} (est : TimingEstimate R sps) :
    (timingStart est).pos ≤ (timingStart est).nextPos :=
  le_add_of_nonneg_right (div_nonneg (Nat.cast_nonneg sps) est.one_sub_drift_pos.le)

variable [FloorRing R]

/-- What the symbols fit into: a burst shorter than a symbol has at most two samples, and of a
longer one an instant among the first `inLen / sps + 2` after the start is past the end. -/
def TimingEstimate.fits {sps : ℕ} (est : TimingEstimate R sps) (err : ℕ → R) (inLen : ℕ) : Prop :=
  if inLen < sps then inLen ≤ 2
  else ∃ j ≤ inLen / sps + 1,
    (inLen : R) ≤ (est.off + (j + 1) * sps) / (1 - est.drift) + timingCorrection sps err j + 2

omit [IsStrictOrderedRing R] in
/-- A burst shorter than a symbol is copied, one symbol for each sample. -/
theorem timingSyncProcess_short (detector : ℕ → Cplx R → Cplx R → Cplx R → R) {sps : ℕ}
    (est : TimingEstimate R sps) {input : List (Cplx R)} (hshort : input.length < sps)
    (fuel : ℕ) : timingSyncProcess detector est input fuel = input :=
  if_pos (Or.inr hshort)

/-- A longer one has at most `m + 1` symbols when one of its instants up to the `m`-th is past the
end. -/
theorem length_timingSyncProcess_le_iff {sps : ℕ} (hsps : 2 ≤ sps) (est : TimingEstimate R sps)
    (err : ℕ → R) {input : List (Cplx R)} (hlong : sps ≤ input.length) (m : ℕ) :
    (∀ fuel, (timingSyncProcess (fun k _ _ _ => err k) est input fuel).length ≤ m + 1)
      ↔ ∃ j ≤ m, (input.length : R) ≤ (drivenLoop est err j).nextPos + 2 := by
  have hbranch : ¬ (sps < 2 ∨ input.length < sps) := by omega
  unfold timingSyncProcess
  simp only [if_neg hbranch]
  split_ifs with hfirst
  · simp only [List.length_cons, Nat.add_le_add_iff_right]
    exact length_timingLoop_le_iff est err input _ m
  · have hend : (input.length : R) ≤ (drivenLoop est err 0).nextPos + 2 :=
      (not_lt.mp hfirst).trans (by gcongr; exact est.pos_le_nextPos)
    have hnone := (length_timingLoop_le_iff est err input ⟨0, 0⟩ 0).mpr ⟨0, le_rfl, hend⟩
    exact ⟨fun _ => ⟨0, Nat.zero_le m, hend⟩, fun _ fuel => (hnone fuel).trans (Nat.zero_le _)⟩

/-- **The symbols fit in the buffer exactly when the burst, the estimate and the errors say so**:
`timingSyncProcess` writes at most `in_len / sps + 2` symbols if and only if `fits`. -/
theorem timingSync_symbols_iff {sps : ℕ} (hsps : 2 ≤ sps) (est : TimingEstimate R sps)
    (err : ℕ → R) (input : List (Cplx R)) :
    (∀ fuel, (timingSyncProcess (fun k _ _ _ => err k) est input fuel).length
        ≤ input.length / sps + 2)
      ↔ est.fits err input.length := by
  unfold TimingEstimate.fits
  split_ifs with hshort
  · have hzero : input.length / sps = 0 := Nat.div_eq_of_lt hshort
    simp only [timingSyncProcess_short _ est hshort, hzero, Nat.zero_add, forall_const]
  · rw [length_timingSyncProcess_le_iff hsps est err (not_lt.mp hshort)]
    simp only [nextPos_drivenLoop]

/-! ### Runs without errors -/

omit [FloorRing R] in
theorem timingIntegral_zero (sps k : ℕ) : timingIntegral sps (0 : ℕ → R) k = 0 := by
  have hsps : (0 : R) ≤ sps := Nat.cast_nonneg sps
  induction k with
  | zero => rfl
  | succ k ih =>
    rw [timingIntegral, ih, Pi.zero_apply, mul_zero, add_zero, clampIntegrator,
      if_neg (by linarith), if_neg (by linarith)]

omit [FloorRing R] in
theorem timingCorrection_zero (sps j : ℕ) : timingCorrection sps (0 : ℕ → R) j = 0 :=
  Finset.sum_eq_zero fun i _ => by simp [timingIntegral_zero]

/-- When the Gardner errors vanish only the drift counts: the burst, compressed by it, has to end
within the nominal length of `in_len / sps + 2` symbols. -/
theorem timingSync_symbols_no_error_iff {sps : ℕ} (hsps : 2 ≤ sps) (est : TimingEstimate R sps)
    {input : List (Cplx R)} (hlong : sps ≤ input.length) :
    (∀ fuel, (timingSyncProcess (fun _ _ _ _ => 0) est input fuel).length
        ≤ input.length / sps + 2)
      ↔ ((input.length : R) - 2) * (1 - est.drift)
          ≤ est.off + ((input.length / sps : ℕ) + 2) * sps := by
  have hpos := est.one_sub_drift_pos
  have hinstant : ∀ j, (input.length : R) ≤ (drivenLoop est 0 j).nextPos + 2
      ↔ ((input.length : R) - 2) * (1 - est.drift) ≤ est.off + (j + 1) * sps := by
    intro j
    rw [nextPos_drivenLoop, timingCorrection_zero, add_zero, ← sub_le_iff_le_add, le_div_iff₀ hpos]
  refine (length_timingSyncProcess_le_iff hsps est 0 hlong _).trans ?_
  simp only [hinstant]
  constructor
  · rintro ⟨j, hj, hpast⟩
    have hjR : (j : R) ≤ (input.length / sps : ℕ) + 1 := by exact_mod_cast hj
    have hsteps : ((j : R) + 1) * sps ≤ ((input.length / sps : ℕ) + 2) * sps :=
      mul_le_mul_of_nonneg_right (by linarith) (Nat.cast_nonneg sps)
    linarith
  · intro hpast
    refine ⟨input.length / sps + 1, le_rfl, hpast.trans_eq ?_⟩
    push_cast
    ring

/-- A clock that is not slow never overflows without errors. -/
theorem timingSync_symbols_of_drift_nonneg {sps : ℕ} (hsps : 2 ≤ sps) (est : TimingEstimate R sps)
    (hdrift : 0 ≤ est.drift) {input : List (Cplx R)} (hlong : sps ≤ input.length) (fuel : ℕ) :
    (timingSyncProcess (fun _ _ _ _ => 0) est input fuel).length ≤ input.length / sps + 2 := by
  refine (timingSync_symbols_no_error_iff hsps est hlong).mpr ?_ fuel
  have hdiv : (input.length : R) ≤ ((input.length / sps : ℕ) + 1) * sps := by
    exact_mod_cast (Nat.lt_mul_of_div_lt (Nat.lt_succ_self _) (by omega)).le
  have hlen : (2 : R) ≤ input.length := by exact_mod_cast hsps.trans hlong
  have hscale : ((input.length : R) - 2) * (1 - est.drift) ≤ (input.length : R) - 2 :=
    mul_le_of_le_one_right (by linarith) (by linarith)
  have hoff := est.one_le_off
  have hsps0 : (0 : R) ≤ sps := Nat.cast_nonneg sps
  linarith

end

/-! ### Two bursts that do not fit -/

/-- A timing estimate on time. -/
def onTime : TimingEstimate ℚ 4 :=
  ⟨1, 0, le_rfl, by norm_num, by norm_num⟩

/-- The slowest clock that is accepted. -/
def slowClock : TimingEstimate ℚ 2 :=
  ⟨1, -(1 / 500), le_rfl, by norm_num, by norm_num [abs_of_neg]⟩

theorem slowClock_overflow {input : List (Cplx ℚ)} (hn : input.length = 100000) :
    ¬ ∀ fuel, (timingSyncProcess (fun _ _ _ _ => 0) slowClock input fuel).length
      ≤ 100000 / 2 + 2 := by
  intro hfits
  rw [← hn] at hfits
  have hdrift := (timingSync_symbols_no_error_iff le_rfl slowClock (by omega)).mp hfits
  rw [hn] at hdrift
  exact absurd hdrift (by norm_num [slowClock])

/-- Three samples at four samples for each symbol are copied to a buffer of two symbols; and on a
slow clock 100000 samples give more than 50002 symbols. -/
theorem timingSync_symbols_overflow :
    ¬ (∀ fuel, (timingSyncProcess (fun _ => gardnerError) onTime (List.replicate 3 0) fuel).length
        ≤ 3 / 4 + 2) ∧
      ¬ ∀ fuel, (timingSyncProcess (fun _ _ _ _ => 0) slowClock (List.replicate 100000 0)
        fuel).length ≤ 100000 / 2 + 2 := by
  constructor
  · intro hfits
    have hcopy := hfits 0
    rw [timingSyncProcess_short _ onTime (by simp)] at hcopy
    exact absurd hcopy (by simp)
  · exact slowClock_overflow List.length_replicate

/-- An instant that is first moved on by half a unit and then back. -/
def wobble : ℕ → ℚ
  | 0 => 1 / 2
  | 1 => -(3 / 4)
  | 2 => 1 / 8
  | _ => 0

/-- Sixteen samples on such a clock fit in the six symbols that are allocated for them. -/
theorem timingSync_symbols_iff_wobble :
    onTime.fits wobble (List.replicate 16 (⟨1, 0⟩ : Cplx ℚ)).length ∧
      ∀ fuel, (timingSyncProcess (fun k _ _ _ => wobble k) onTime (List.replicate 16 ⟨1, 0⟩)
        fuel).length ≤ (List.replicate 16 (⟨1, 0⟩ : Cplx ℚ)).length / 4 + 2 := by
  have hfits : onTime.fits wobble (List.replicate 16 (⟨1, 0⟩ : Cplx ℚ)).length := by
    rw [TimingEstimate.fits, List.length_replicate, if_neg (by decide)]
    exact ⟨3, by decide, by decide +kernel⟩
  exact ⟨hfits,
    (timingSync_symbols_iff (by norm_num) onTime wobble (List.replicate 16 ⟨1, 0⟩)).mpr hfits⟩

end OpenVlsnr
