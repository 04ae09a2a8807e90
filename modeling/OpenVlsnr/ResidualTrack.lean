import OpenVlsnr.CarrierRecovery
import OpenVlsnr.LineFit
import OpenVlsnr.PilotBlocks

/-!
# The residual tracker (`residual_carrier_track`)

The tracker measures a phase on the header and on every pilot block, unwraps each against the last,
fits a line and takes it off the data field.  It counts the blocks from two symbols before where
they are, so that on a carrier all samples but the header lie on one line, two symbols ahead.  The
fitted line is off by that much times the leverage of the header (`OnTrack`, one block
`PilotTone.track_step`, all of them `PilotTone.track_run`), and the leverage of every layout is at
most one (`modcod_paced`).
-/

namespace OpenVlsnr

open Finset Phasors LineFit

section
variable {R : Type*} [Field R] [LinearOrder R] (math : CarrierMath R)

/-! ### The code -/

/-- `ci` and `cq` of the header. -/
def headerSum (sym : List (Cplx R)) (whStart : ℕ) (whRef : List (Cplx R)) : Cplx R :=
  (List.range vlsnrWhLen).foldl (fun s n => s + headerProduct sym whStart whRef n) 0

/-- `ci` and `cq` of the `blk` pilots from `start` on. -/
def pilotSum (const : Sqrt2 R) (sym : List (Cplx R)) (start blk : ℕ) : Cplx R :=
  (List.range blk).foldl
    (fun s n =>
      let r := sym.getD (start + n) 0
      ⟨s.i + (r.i + r.q) * const.half, s.q + (r.q - r.i) * const.half⟩) 0

/-- `prev_ph` and the sums of the fit. -/
structure TrackFit (R : Type*) where
  prev : R
  moments : Moments R

/-- One phase sample of weight `w` at `pos`; `rounds` bounds the tests of each unwrapping loop. -/
def trackSample (rounds : ℕ) (fit : TrackFit R) (w pos phv : R) : Option (TrackFit R) := do
  let phv ← unwrap math.pi fit.prev rounds phv
  some ⟨phv, fit.moments.add w pos phv⟩

/-- The sample of the pilots `b.1` up to `b.1 + b.2`. -/
def trackBlock (const : Sqrt2 R) (rounds : ℕ) (sym : List (Cplx R)) (start : ℕ)
    (fit : TrackFit R) (b : ℕ × ℕ) : Option (TrackFit R) :=
  let s := pilotSum const sym (start + b.1) b.2
  let pos := (vlsnrWhLen : R) + (b.1 : R) + ((b.2 - 1 : ℕ) : R) / 2
  trackSample math rounds fit (b.2 : R) pos (math.atan2 s.q s.i)

/-- The fit before the first pilot. -/
def trackStart (sym : List (Cplx R)) (whStart : ℕ) (whRef : List (Cplx R)) : TrackFit R :=
  let s := headerSum sym whStart whRef
  let pos := ((vlsnrWhLen - 1 : ℕ) : R) / 2
  let phv := math.atan2 s.q s.i
  ⟨phv, Moments.zero.add (vlsnrWhLen : ℕ) pos phv⟩

/-- `a` and `b`. -/
def trackLine (m : Moments R) : R × R :=
  if |m.denom| < 1 / 10 ^ 9 then (0, m.swt / m.sw) else (m.slope, m.intercept)

/-- `residual_carrier_track`; `none` after `rounds` rounds of an unwrapping loop. -/
def residualCarrierTrack (const : Sqrt2 R) (rounds : ℕ) (sym : List (Cplx R)) (whStart : ℕ)
    (lay : VlsnrLayout) (whRef : List (Cplx R)) : Option (List (Cplx R)) := do
  let start := whStart + vlsnrWhLen + 2
  let fit ← (pilotBlocks lay).foldlM (trackBlock math const rounds sym start)
    (trackStart math sym whStart whRef)
  let line := trackLine fit.moments
  some (derotate math sym start lay.fieldLen (line.1 / (2 * math.pi))
    (line.1 * (vlsnrWhLen : ℕ) + line.2))

end

/-! ### The residual tracker -/

/-- A header and pilots on one carrier of `θ` a symbol; pilots stand behind the header and its two
last symbols. -/
structure PilotTone (sym : List (Cplx ℝ)) (whStart : ℕ) (blocks : List (ℕ × ℕ))
    (whRef : List (Cplx ℝ)) (g φ θ : ℝ) : Prop where
  header : ∀ n < vlsnrWhLen, headerProduct sym whStart whRef n = phasor g (φ + n * θ)
  pilots : ∀ b ∈ blocks, ∀ n < b.2, sym.getD (whStart + vlsnrWhLen + 2 + b.1 + n) 0
    = phasor g (φ + ((vlsnrWhLen + 2 + b.1 + n : ℕ) : ℝ) * θ) * Sqrt2.exact.pilot

/-- Where the phase of a block is measured: its middle, from the start of the header. -/
noncomputable def blockCentre (b : ℕ × ℕ) : ℝ :=
  ((vlsnrWhLen + 2 + b.1 : ℕ) : ℝ) + ((b.2 - 1 : ℕ) : ℝ) / 2

/-- Blocks of up to 36 pilots, each in the middle at most half of `gap` behind its predecessor, and
all within half of `reach`; `last` is twice the middle of the predecessor. -/
def BlocksPaced (gap reach : ℕ) : ℕ → List (ℕ × ℕ) → Prop
  | _, [] => True
  | last, b :: rest =>
    let centre := 2 * (vlsnrWhLen + 2 + b.1) + (b.2 - 1)
    (0 < b.2 ∧ b.2 ≤ 36) ∧ (last ≤ centre ∧ centre ≤ last + gap ∧ centre ≤ reach) ∧
      BlocksPaced gap reach centre rest

instance BlocksPaced.instDecidable (gap reach : ℕ) :
    ∀ (last : ℕ) (blocks : List (ℕ × ℕ)), Decidable (BlocksPaced gap reach last blocks)
  | _, [] => inferInstanceAs (Decidable True)
  | _, b :: rest =>
    have := BlocksPaced.instDecidable gap reach (2 * (vlsnrWhLen + 2 + b.1) + (b.2 - 1)) rest
    inferInstanceAs (Decidable (_ ∧ _ ∧ _))

theorem pilot_conj : Sqrt2.exact.pilot * Sqrt2.exact.pilot.conj = 1 := by
  have hhalf : Sqrt2.exact.half * Sqrt2.exact.half = 1 / 2 := by
    show (√2)⁻¹ * (√2)⁻¹ = (1 : ℝ) / 2
    rw [← mul_inv, Real.mul_self_sqrt (by norm_num)]
    norm_num
  ext
  · simp only [Sqrt2.pilot, Cplx.mul_i, Cplx.conj_i, Cplx.conj_q, Cplx.one_i]
    linarith
  · simp only [Sqrt2.pilot, Cplx.mul_q, Cplx.conj_i, Cplx.conj_q, Cplx.one_q]
    ring

theorem pilotSum_eq (sym : List (Cplx ℝ)) (start blk : ℕ) :
    pilotSum Sqrt2.exact sym start blk
      = ∑ n ∈ range blk, sym.getD (start + n) 0 * Sqrt2.exact.pilot.conj := by
  have hround : (fun (s : Cplx ℝ) n =>
      (⟨s.i + ((sym.getD (start + n) 0).i + (sym.getD (start + n) 0).q) * Sqrt2.exact.half,
        s.q + ((sym.getD (start + n) 0).q - (sym.getD (start + n) 0).i) * Sqrt2.exact.half⟩ :
          Cplx ℝ))
      = fun s n => s + sym.getD (start + n) 0 * Sqrt2.exact.pilot.conj := by
    funext s n
    ext
    · simp only [Sqrt2.pilot, Cplx.add_i, Cplx.mul_i, Cplx.conj_i, Cplx.conj_q]
      ring
    · simp only [Sqrt2.pilot, Cplx.add_q, Cplx.mul_q, Cplx.conj_i, Cplx.conj_q]
      ring
  rw [pilotSum, hround, DelayLine.foldl_add_eq_sum, zero_add]

/-- The sum of a run of phasors, as the tracker measures it. -/
theorem sum_tone {n : ℕ} (hn : 0 < n) {g θ : ℝ} (hg : 0 < g) (h : n * |θ| < 2 * Real.pi) (φ : ℝ) :
    ∃ d > 0, ∑ k ∈ range n, phasor g (φ + k * θ) = phasor d (φ + (n - 1) * θ / 2) := by
  obtain ⟨d, hd, hsum⟩ := exists_kernel hn h
  obtain ⟨hcos, hsin⟩ := hsum φ
  refine ⟨g * d, by positivity, ?_⟩
  ext
  · simp only [Cplx.sum_i, phasor, ← mul_sum, hcos, mul_assoc]
  · simp only [Cplx.sum_q, phasor, ← mul_sum, hsin, mul_assoc]

section
variable {sym whRef : List (Cplx ℝ)} {whStart : ℕ} {blocks : List (ℕ × ℕ)} {g φ θ : ℝ}

/-- Where the header is measured. -/
theorem PilotTone.header_phase (h : PilotTone sym whStart blocks whRef g φ θ) (hg : 0 < g)
    (hθ : vlsnrWhLen * |θ| < 2 * Real.pi) :
    ∃ φ₀, (∃ k : ℤ, φ₀ = φ + k * (2 * Real.pi)) ∧ |φ₀ + 895 / 2 * θ| ≤ Real.pi ∧
      CarrierMath.exact.atan2 (headerSum sym whStart whRef).q (headerSum sym whStart whRef).i
        = φ₀ + 895 / 2 * θ := by
  obtain ⟨d, hd, hsum⟩ := sum_tone (n := vlsnrWhLen) (by decide) hg hθ φ
  have hheader : headerSum sym whStart whRef = phasor d (φ + 895 / 2 * θ) := by
    rw [headerSum, DelayLine.foldl_add_eq_sum, zero_add,
      sum_congr rfl fun n hn => h.header n (mem_range.mp hn), hsum]
    have hmid : ((vlsnrWhLen : ℕ) : ℝ) - 1 = 895 := by norm_num
    rw [hmid, mul_div_right_comm]
  obtain ⟨k, hk⟩ := atan2_phasor_turns hd (φ + 895 / 2 * θ)
  rw [hheader]
  refine ⟨φ + k * (2 * Real.pi), ⟨k, rfl⟩, ?_, ?_⟩
  · have harg : φ + k * (2 * Real.pi) + 895 / 2 * θ
        = CarrierMath.exact.atan2 (phasor d (φ + 895 / 2 * θ)).q (phasor d (φ + 895 / 2 * θ)).i := by
      rw [hk]
      ring
    rw [harg]
    exact Complex.abs_arg_le_pi _
  · rw [hk]
    ring

/-- Where a block of pilots is measured, up to whole turns. -/
theorem PilotTone.block_phase (h : PilotTone sym whStart blocks whRef g φ θ) (hg : 0 < g)
    {b : ℕ × ℕ} (hb : b ∈ blocks) (hpos : 0 < b.2) (hθ : b.2 * |θ| < 2 * Real.pi) :
    ∃ k : ℤ, CarrierMath.exact.atan2
        (pilotSum Sqrt2.exact sym (whStart + vlsnrWhLen + 2 + b.1) b.2).q
        (pilotSum Sqrt2.exact sym (whStart + vlsnrWhLen + 2 + b.1) b.2).i
      = φ + blockCentre b * θ + k * (2 * Real.pi) := by
  obtain ⟨d, hd, hsum⟩ := sum_tone hpos hg hθ (φ + ((vlsnrWhLen + 2 + b.1 : ℕ) : ℝ) * θ)
  have hlast : ((b.2 - 1 : ℕ) : ℝ) = b.2 - 1 := by
    rw [Nat.cast_sub hpos, Nat.cast_one]
  have hblock : pilotSum Sqrt2.exact sym (whStart + vlsnrWhLen + 2 + b.1) b.2
      = phasor d (φ + blockCentre b * θ) := by
    have hterm : ∀ n ∈ range b.2,
        sym.getD (whStart + vlsnrWhLen + 2 + b.1 + n) 0 * Sqrt2.exact.pilot.conj
          = phasor g (φ + ((vlsnrWhLen + 2 + b.1 : ℕ) : ℝ) * θ + n * θ) := by
      intro n hn
      rw [h.pilots b hb n (mem_range.mp hn), mul_assoc, pilot_conj, mul_one]
      congr 1
      push_cast
      ring
    rw [pilotSum_eq, sum_congr rfl hterm, hsum, blockCentre, hlast]
    congr 1
    ring
  rw [hblock]
  exact atan2_phasor_turns hd _

/-- The sums of a fit that do not depend on the phases. -/
structure SameDesign (m : Moments ℝ) (d : Moments ℚ) : Prop where
  sw : m.sw = d.sw
  swp : m.swp = d.swp
  swpp : m.swpp = d.swpp

theorem SameDesign.add {m : Moments ℝ} {d : Moments ℚ} (h : SameDesign m d) (w x : ℚ) (y : ℝ) :
    SameDesign (m.add w x y) (d.add w x 0) := by
  constructor
  · simp [Moments.add, h.sw]
  · simp [Moments.add, h.swp]
  · simp [Moments.add, h.swpp]

theorem SameDesign.denom {m : Moments ℝ} {d : Moments ℚ} (h : SameDesign m d) :
    m.denom = d.denom := by
  simp [Moments.denom, h.sw, h.swp, h.swpp]

theorem SameDesign.leverage {m : Moments ℝ} {d : Moments ℚ} (h : SameDesign m d) (w x t : ℚ) :
    m.leverage w x t = d.leverage w x t := by
  simp [Moments.leverage, h.denom, h.sw, h.swp, h.swpp]

/-- A block, without its phase. -/
def blockMoments (d : Moments ℚ) (b : ℕ × ℕ) : Moments ℚ :=
  d.add (b.2 : ℚ) ((vlsnrWhLen : ℚ) + (b.1 : ℚ) + ((b.2 - 1 : ℕ) : ℚ) / 2) 0

/-- The header, without its phase. -/
def headerMoments : Moments ℚ := Moments.zero.add 896 (895 / 2) 0

/-- What holds behind every phase sample: the next one is unwrapped against the true phase of the
last, and the samples lie on the line two symbols ahead of the carrier, but for the header. -/
structure OnTrack (φ₀ θ : ℝ) (last : ℕ) (d : Moments ℚ) (fit : TrackFit ℝ) : Prop where
  prev : fit.prev = φ₀ + last / 2 * θ
  line : OffLine fit.moments θ (φ₀ + 2 * θ) 896 (895 / 2) (-(2 * θ))
  design : SameDesign fit.moments d

/-- **One block.** -/
theorem PilotTone.track_step (h : PilotTone sym whStart blocks whRef g φ θ) (hg : 0 < g)
    {φ₀ : ℝ} (hφ₀ : ∃ k : ℤ, φ₀ = φ + k * (2 * Real.pi))
    (hstart : |φ₀ + 895 / 2 * θ| ≤ Real.pi) {gap reach : ℕ}
    (hgap : gap / 2 * |θ| < Real.pi) {rounds : ℕ}
    (hrounds : reach / 2 * |θ| + 2 * Real.pi ≤ (rounds - 1 : ℕ) * (2 * Real.pi))
    (hsmall : 36 * |θ| < 2 * Real.pi) {last : ℕ} (hlast : 895 ≤ last)
    {b : ℕ × ℕ} (hb : b ∈ blocks) (hlen : 0 < b.2 ∧ b.2 ≤ 36) {centre : ℕ}
    (hcentre : centre = 2 * (vlsnrWhLen + 2 + b.1) + (b.2 - 1))
    (hpaced : last ≤ centre ∧ centre ≤ last + gap ∧ centre ≤ reach)
    {d : Moments ℚ} {fit : TrackFit ℝ} (hfit : OnTrack φ₀ θ last d fit) :
    ∃ fit', trackBlock CarrierMath.exact Sqrt2.exact rounds sym
        (whStart + vlsnrWhLen + 2) fit b = some fit' ∧
      OnTrack φ₀ θ centre (blockMoments d b) fit' := by
  have hpi := Real.pi_pos
  have hmid : blockCentre b = centre / 2 := by
    rw [blockCentre, hcentre]
    push_cast
    ring
  obtain ⟨k, hk⟩ := hφ₀
  obtain ⟨m, hm⟩ := h.block_phase hg hb hlen.1 (by
    have : (b.2 : ℝ) ≤ 36 := by exact_mod_cast hlen.2
    nlinarith [abs_nonneg θ])
  -- the measured phase, in turns from the true one
  set y := φ₀ + centre / 2 * θ with hy
  have hmeasured : φ + blockCentre b * θ + m * (2 * Real.pi)
      = y + ((m - k : ℤ) : ℝ) * (2 * Real.pi) := by
    rw [hmid, hy, hk]
    push_cast
    ring
  have hnear : |y - fit.prev| < Real.pi := by
    have hsteps : ((centre : ℝ) - last) / 2 ≤ gap / 2 := by
      have : (centre : ℝ) ≤ last + gap := by exact_mod_cast hpaced.2.1
      linarith
    have hnonneg : (0 : ℝ) ≤ ((centre : ℝ) - last) / 2 := by
      have : (last : ℝ) ≤ centre := by exact_mod_cast hpaced.1
      linarith
    have hdiff : y - fit.prev = ((centre : ℝ) - last) / 2 * θ := by
      rw [hfit.prev, hy]
      ring
    rw [hdiff, abs_mul, abs_of_nonneg hnonneg]
    exact lt_of_le_of_lt (mul_le_mul_of_nonneg_right hsteps (abs_nonneg θ)) hgap
  have hturns : (m - k).natAbs < rounds := by
    have hbound : |y| ≤ Real.pi + reach / 2 * |θ| := by
      have hsplit : y = φ₀ + 895 / 2 * θ + ((centre : ℝ) - 895) / 2 * θ := by
        rw [hy]
        ring
      have hreach : ((centre : ℝ) - 895) / 2 ≤ reach / 2 := by
        have : (centre : ℝ) ≤ reach := by exact_mod_cast hpaced.2.2
        linarith
      have hnonneg : (0 : ℝ) ≤ ((centre : ℝ) - 895) / 2 := by
        have : ((895 : ℕ) : ℝ) ≤ centre := by exact_mod_cast hlast.trans hpaced.1
        push_cast at this
        linarith
      calc |y| ≤ |φ₀ + 895 / 2 * θ| + |((centre : ℝ) - 895) / 2 * θ| := hsplit ▸ abs_add_le _ _
        _ ≤ Real.pi + reach / 2 * |θ| := by
          rw [abs_mul, abs_of_nonneg hnonneg]
          exact add_le_add hstart (mul_le_mul_of_nonneg_right hreach (abs_nonneg θ))
    have harg : |y + ((m - k : ℤ) : ℝ) * (2 * Real.pi)| ≤ Real.pi := by
      rw [← hmeasured, ← hm]
      exact Complex.abs_arg_le_pi _
    have hmul : (((m - k).natAbs : ℕ) : ℝ) * (2 * Real.pi) ≤ (rounds - 1 : ℕ) * (2 * Real.pi) := by
      have habs : |((m - k : ℤ) : ℝ) * (2 * Real.pi)| ≤ Real.pi + (Real.pi + reach / 2 * |θ|) := by
        calc |((m - k : ℤ) : ℝ) * (2 * Real.pi)|
            = |(y + ((m - k : ℤ) : ℝ) * (2 * Real.pi)) - y| := by rw [add_sub_cancel_left]
          _ ≤ |y + ((m - k : ℤ) : ℝ) * (2 * Real.pi)| + |y| := abs_sub _ _
          _ ≤ Real.pi + (Real.pi + reach / 2 * |θ|) := add_le_add harg hbound
      rw [abs_mul, abs_of_pos (by positivity : 0 < 2 * Real.pi), ← Int.cast_abs,
        Int.abs_eq_natAbs, Int.cast_natCast] at habs
      linarith
    have hle : (m - k).natAbs ≤ rounds - 1 := by
      exact_mod_cast le_of_mul_le_mul_right hmul (by positivity : 0 < 2 * Real.pi)
    have hone : 1 ≤ rounds - 1 := by
      by_contra hnone
      rw [show rounds - 1 = 0 by omega, Nat.cast_zero, zero_mul] at hrounds
      have : 0 ≤ (reach : ℝ) / 2 * |θ| := by positivity
      linarith
    omega
  have hrun : trackBlock CarrierMath.exact Sqrt2.exact rounds sym
      (whStart + vlsnrWhLen + 2) fit b
      = some ⟨y, fit.moments.add b.2
          ((vlsnrWhLen : ℝ) + (b.1 : ℝ) + ((b.2 - 1 : ℕ) : ℝ) / 2) y⟩ := by
    rw [trackBlock, hm, hmeasured, trackSample,
      show CarrierMath.exact.pi = Real.pi from rfl, unwrap_eq hpi hnear hturns]
    rfl
  refine ⟨_, hrun, rfl, ?_, ?_⟩
  · have hline : y = θ * ((vlsnrWhLen : ℝ) + (b.1 : ℝ) + ((b.2 - 1 : ℕ) : ℝ) / 2)
        + (φ₀ + 2 * θ) := by
      rw [hy, hcentre]
      push_cast
      ring
    rw [hline]
    exact hfit.line.add _ _
  · have hdesign := hfit.design.add (b.2 : ℚ)
      ((vlsnrWhLen : ℚ) + (b.1 : ℚ) + ((b.2 - 1 : ℕ) : ℚ) / 2) y
    push_cast at hdesign
    exact hdesign

/-- Behind the header the fit is on track. -/
theorem PilotTone.track_start (h : PilotTone sym whStart blocks whRef g φ θ) (hg : 0 < g)
    (hθ : vlsnrWhLen * |θ| < 2 * Real.pi) :
    ∃ φ₀, (∃ k : ℤ, φ₀ = φ + k * (2 * Real.pi)) ∧ |φ₀ + 895 / 2 * θ| ≤ Real.pi ∧
      OnTrack φ₀ θ 895 headerMoments (trackStart CarrierMath.exact sym whStart whRef) := by
  obtain ⟨φ₀, hφ₀, hstart, hphase⟩ := h.header_phase hg hθ
  have hpos : ((vlsnrWhLen - 1 : ℕ) : ℝ) / 2 = 895 / 2 := by norm_num
  have hweight : ((vlsnrWhLen : ℕ) : ℝ) = 896 := by norm_num
  have hfit : trackStart CarrierMath.exact sym whStart whRef
      = ⟨φ₀ + 895 / 2 * θ, Moments.zero.add 896 (895 / 2) (φ₀ + 895 / 2 * θ)⟩ := by
    rw [trackStart, hphase, hpos, hweight]
  refine ⟨φ₀, hφ₀, hstart, ?_⟩
  rw [hfit]
  refine ⟨by push_cast; rfl, ?_, ?_⟩
  · have hline : φ₀ + 895 / 2 * θ = θ * (895 / 2) + (φ₀ + 2 * θ) + -(2 * θ) := by ring
    rw [hline]
    exact OffLine.single _ _ _ _ _
  · constructor <;> norm_num [headerMoments, Moments.add, Moments.zero]

/-- **All blocks.** -/
theorem PilotTone.track_run (h : PilotTone sym whStart blocks whRef g φ θ) (hg : 0 < g)
    {φ₀ : ℝ} (hφ₀ : ∃ k : ℤ, φ₀ = φ + k * (2 * Real.pi))
    (hstart : |φ₀ + 895 / 2 * θ| ≤ Real.pi) {gap reach : ℕ}
    (hgap : gap / 2 * |θ| < Real.pi) {rounds : ℕ}
    (hrounds : reach / 2 * |θ| + 2 * Real.pi ≤ (rounds - 1 : ℕ) * (2 * Real.pi))
    (hsmall : 36 * |θ| < 2 * Real.pi) (rest : List (ℕ × ℕ)) :
    ∀ {last : ℕ}, 895 ≤ last → (∀ b ∈ rest, b ∈ blocks) → BlocksPaced gap reach last rest →
      ∀ {d : Moments ℚ} {fit : TrackFit ℝ}, OnTrack φ₀ θ last d fit →
      ∃ last' fit', rest.foldlM (trackBlock CarrierMath.exact Sqrt2.exact rounds sym
          (whStart + vlsnrWhLen + 2)) fit = some fit' ∧
        OnTrack φ₀ θ last' (rest.foldl blockMoments d) fit' := by
  induction rest with
  | nil =>
    intro last _ _ _ d fit hfit
    exact ⟨last, fit, rfl, hfit⟩
  | cons b rest ih =>
    intro last hlast hmem hpaced d fit hfit
    obtain ⟨hlen, hstep, hrest⟩ := hpaced
    obtain ⟨fit₁, hrun₁, hfit₁⟩ := h.track_step hg hφ₀ hstart hgap hrounds hsmall hlast
      (hmem b (List.mem_cons_self ..)) hlen rfl hstep hfit
    obtain ⟨last', fit', hrun, hfit'⟩ := ih (hlast.trans hstep.1)
      (fun b hb => hmem b (List.mem_cons_of_mem _ hb)) hrest hfit₁
    refine ⟨last', fit', ?_, hfit'⟩
    rw [List.foldlM_cons, hrun₁]
    exact hrun

/-- The sums behind all blocks of a layout. -/
def layoutMoments (blocks : List (ℕ × ℕ)) : Moments ℚ := blocks.foldl blockMoments headerMoments

/-- What the tracker relies on: blocks at most 1008 symbols apart in a field of `fieldLen`, and a
fit that an error of the header cannot turn by more than it is. -/
structure LayoutPaced (blocks : List (ℕ × ℕ)) (fieldLen : ℕ) : Prop where
  paced : BlocksPaced 2016 66564 895 blocks
  sw_pos : 0 < (layoutMoments blocks).sw
  denom_pos : 1 ≤ (layoutMoments blocks).denom
  first : |(layoutMoments blocks).leverage 896 (895 / 2) 896| ≤ 1
  last : |(layoutMoments blocks).leverage 896 (895 / 2) (896 + fieldLen)| ≤ 1

/-- **`residual_carrier_track`** on a carrier of up to one turn in 2016 symbols: every symbol `n`
of the data field is left turned by at most the angle of two symbols. -/
theorem PilotTone.residual {lay : VlsnrLayout}
    (h : PilotTone sym whStart (pilotBlocks lay) whRef g φ θ) (hg : 0 < g)
    (hlay : LayoutPaced (pilotBlocks lay) lay.fieldLen) (hθ : 1008 * |θ| < Real.pi) {rounds : ℕ}
    (hrounds : 20 ≤ rounds) :
    ∃ out, residualCarrierTrack CarrierMath.exact Sqrt2.exact rounds sym whStart lay whRef
        = some out ∧ out.length = sym.length ∧
      ∀ k < sym.length,
        if whStart + vlsnrWhLen + 2 ≤ k ∧ k < whStart + vlsnrWhLen + 2 + lay.fieldLen then
          ∃ δ, |δ| ≤ 2 * |θ| ∧
            out.getD k 0 = sym.getD k 0 * phasor 1 (δ - (φ + (k - whStart : ℕ) * θ))
        else out.getD k 0 = sym.getD k 0 := by
  have hpi := Real.pi_pos
  have habs := abs_nonneg θ
  obtain ⟨φ₀, hφ₀, hstart, hfit₀⟩ := h.track_start hg (by push_cast; linarith)
  have hturns : ((66564 : ℕ) : ℝ) / 2 * |θ| + 2 * Real.pi ≤ (rounds - 1 : ℕ) * (2 * Real.pi) := by
    have hlow : (19 : ℝ) ≤ (rounds - 1 : ℕ) := by
      have : 19 ≤ rounds - 1 := by omega
      exact_mod_cast this
    push_cast
    nlinarith
  obtain ⟨last, fit, hrun, hfit⟩ := h.track_run hg hφ₀ hstart
    (by push_cast; linarith) hturns (by linarith) (pilotBlocks lay) le_rfl (fun _ hb => hb)
    hlay.paced hfit₀
  have hdesign : SameDesign fit.moments (layoutMoments (pilotBlocks lay)) := hfit.design
  -- the line is the fitted one
  have hdenom : (1 : ℝ) ≤ fit.moments.denom := by
    rw [hdesign.denom]
    exact_mod_cast hlay.denom_pos
  have hsw : fit.moments.sw ≠ 0 := by
    rw [hdesign.sw]
    exact_mod_cast hlay.sw_pos.ne'
  have hline : trackLine fit.moments = (fit.moments.slope, fit.moments.intercept) := by
    rw [trackLine, if_neg]
    rw [abs_of_pos (lt_of_lt_of_le one_pos hdenom), not_lt]
    exact le_trans (by norm_num) hdenom
  have heval := fun t => hfit.line.eval_fit hsw (lt_of_lt_of_le one_pos hdenom).ne' t
  have hleverage : ∀ n, n < lay.fieldLen →
      |fit.moments.leverage 896 (895 / 2) (896 + n)| ≤ 1 := by
    intro n hn
    have hends : ∀ t : ℚ, |(layoutMoments (pilotBlocks lay)).leverage 896 (895 / 2) t| ≤ 1 →
        |fit.moments.leverage 896 (895 / 2) (t : ℝ)| ≤ 1 := by
      intro t ht
      have hcast := hdesign.leverage 896 (895 / 2) t
      push_cast at hcast
      rw [hcast]
      exact_mod_cast ht
    have hfirst := hends 896 hlay.first
    have hlast := hends (896 + lay.fieldLen) hlay.last
    push_cast at hfirst hlast
    have hn' : (n : ℝ) ≤ lay.fieldLen := by exact_mod_cast hn.le
    exact Moments.leverage_between (by simp) (by linarith) hfirst hlast
  refine ⟨_, by rw [residualCarrierTrack, hrun]; rfl, derotate_length _ _ _ _ _, fun k hk => ?_⟩
  rw [derotate_getD _ _ _ _ _ hk, hline]
  split
  case isFalse => rfl
  case isTrue hin =>
    obtain ⟨n, rfl⟩ : ∃ n, k = whStart + vlsnrWhLen + 2 + n := ⟨_, (Nat.add_sub_cancel' hin.1).symm⟩
    have hn : n < lay.fieldLen := by omega
    refine ⟨2 * θ * fit.moments.leverage 896 (895 / 2) (896 + n), ?_, ?_⟩
    · rw [abs_mul, abs_mul, abs_of_pos (two_pos : (0 : ℝ) < 2)]
      exact mul_le_of_le_one_right (by positivity) (hleverage n hn)
    · obtain ⟨m, hm⟩ := hφ₀
      -- the angle that is taken off, up to whole turns
      have hangle : 2 * Real.pi * (fit.moments.slope / (2 * Real.pi)) * (n : ℝ)
            + (fit.moments.slope * ((vlsnrWhLen : ℕ) : ℝ) + fit.moments.intercept)
          = φ + ((898 + n : ℕ) : ℝ) * θ - 2 * θ * fit.moments.leverage 896 (895 / 2) (896 + n)
            + m * (2 * Real.pi) := by
        have hat := heval (896 + n)
        have hturn : 2 * Real.pi * (fit.moments.slope / (2 * Real.pi)) = fit.moments.slope :=
          mul_div_cancel₀ _ (by positivity)
        rw [hturn]
        push_cast
        rw [hm] at hat
        linear_combination hat
      have hpos : CarrierMath.exact.pi = Real.pi := rfl
      have hwh : vlsnrWhLen = 896 := rfl
      rw [Nat.add_sub_cancel_left, hpos, hangle,
        show whStart + vlsnrWhLen + 2 + n - whStart = 898 + n by omega]
      refine congrArg (sym.getD _ 0 * ·) ?_
      rw [← phasor_turns 1 (2 * θ * _ - _) (-m)]
      congr 1
      push_cast
      ring

end

/-- **The layouts pace the tracker.** -/
theorem modcod_paced : ∀ mc ∈ vlsnrModcodTable,
    LayoutPaced (pilotBlocks (buildLayout mc)) (buildLayout mc).fieldLen := by
  have hblocks : ∀ mc ∈ vlsnrModcodTable,
      let d := layoutMoments (modcodBlocks mc)
      let fieldLen := (if mc.set = .set1 then vlsnrFrameLong else vlsnrFrameShort)
        - (plheaderLen + vlsnrHdrLen)
      BlocksPaced 2016 66564 895 (modcodBlocks mc) ∧ 0 < d.sw ∧ 1 ≤ d.denom ∧
        |d.leverage 896 (895 / 2) 896| ≤ 1 ∧
        |d.leverage 896 (895 / 2) (896 + (fieldLen : ℕ))| ≤ 1 := by
    decide +kernel
  intro mc hmc
  obtain ⟨hpaced, hsw, hdenom, hfirst, hlast⟩ := hblocks mc hmc
  obtain ⟨-, -, -, hlen⟩ := modcod_layout mc hmc
  rw [← hlen, Nat.add_sub_cancel_left] at hlast
  rw [pilotBlocks_eq]
  exact ⟨hpaced, hsw, hdenom, hfirst, hlast⟩

/-- **`residual_carrier_track`, for every MODCOD**: a header and pilots on a carrier of up to one
turn in 2016 symbols leave every symbol of the data field turned by at most the angle of two
symbols, and the symbols outside it alone. -/
theorem residualCarrierTrack_modcods {mc : Modcod} (hmc : mc ∈ vlsnrModcodTable)
    {sym whRef : List (Cplx ℝ)} {whStart : ℕ} {g φ θ : ℝ}
    (h : PilotTone sym whStart (pilotBlocks (buildLayout mc)) whRef g φ θ) (hg : 0 < g)
    (hθ : 1008 * |θ| < Real.pi) {rounds : ℕ} (hrounds : 20 ≤ rounds) :
    ∃ out, residualCarrierTrack CarrierMath.exact Sqrt2.exact rounds sym whStart (buildLayout mc)
        whRef = some out ∧ out.length = sym.length ∧
      ∀ k < sym.length,
        if whStart + vlsnrWhLen + 2 ≤ k ∧ k < whStart + vlsnrWhLen + 2 + (buildLayout mc).fieldLen then
          ∃ δ, |δ| ≤ 2 * |θ| ∧
            out.getD k 0 = sym.getD k 0 * phasor 1 (δ - (φ + (k - whStart : ℕ) * θ))
        else out.getD k 0 = sym.getD k 0 :=
  h.residual hg (modcod_paced mc hmc) hθ hrounds

/-- A header of ones and pilots ever after, on a carrier of one turn in some 6283 symbols. -/
noncomputable def slowTone (len : ℕ) : List (Cplx ℝ) :=
  (List.range len).map fun k : ℕ =>
    phasor 1 (k * (1 / 1000)) * if k < vlsnrWhLen then 1 else Sqrt2.exact.pilot

theorem slowTone_getD {len k : ℕ} (h : k < len) : (slowTone len).getD k 0
    = phasor 1 (k * (1 / 1000)) * if k < vlsnrWhLen then 1 else Sqrt2.exact.pilot := by
  simp [slowTone, List.getD_eq_getElem?_getD, h]

theorem slowTone_pilotTone {blocks : List (ℕ × ℕ)} {len : ℕ} (hlen : vlsnrWhLen ≤ len)
    (hblocks : ∀ b ∈ blocks, vlsnrWhLen + 2 + b.1 + b.2 ≤ len) :
    PilotTone (slowTone len) 0 blocks (List.replicate vlsnrWhLen 1) 1 0 (1 / 1000) := by
  have hone : (1 : Cplx ℝ).conj = 1 := by rw [← phasor_one_zero, phasor_conj, neg_zero]
  refine ⟨fun n hn => ?_, fun b hb n hn => ?_⟩
  · rw [headerProduct_eq, Nat.zero_add, slowTone_getD (hn.trans_le hlen), if_pos hn, zero_add]
    simp [List.getD_eq_getElem?_getD, hn, hone]
  · have hroom := hblocks b hb
    rw [Nat.zero_add, slowTone_getD (by omega), if_neg (by omega), zero_add]

/-- The first MODCOD. -/
theorem residualCarrierTrack_modcods_slow :
    ∃ out, residualCarrierTrack CarrierMath.exact Sqrt2.exact 20 (slowTone 34000) 0
        (buildLayout vlsnrModcodTable[0]) (List.replicate vlsnrWhLen 1) = some out ∧
      out.length = (slowTone 34000).length ∧
      ∀ k < (slowTone 34000).length,
        if 0 + vlsnrWhLen + 2 ≤ k ∧ k < 0 + vlsnrWhLen + 2
            + (buildLayout vlsnrModcodTable[0]).fieldLen then
          ∃ δ, |δ| ≤ 2 * |(1 / 1000 : ℝ)| ∧ out.getD k 0
            = (slowTone 34000).getD k 0 * phasor 1 (δ - (0 + (k - 0 : ℕ) * (1 / 1000)))
        else out.getD k 0 = (slowTone 34000).getD k 0 := by
  have hblocks : ∀ b ∈ modcodBlocks vlsnrModcodTable[0], vlsnrWhLen + 2 + b.1 + b.2 ≤ 34000 := by
    decide +kernel
  have hpi := Real.two_le_pi
  refine residualCarrierTrack_modcods (List.getElem_mem _)
    (slowTone_pilotTone (by decide) (by rw [pilotBlocks_eq]; exact hblocks)) one_pos ?_ le_rfl
  rw [abs_of_pos (by norm_num)]
  linarith

end OpenVlsnr
