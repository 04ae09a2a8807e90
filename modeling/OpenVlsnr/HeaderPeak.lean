import OpenVlsnr.HeaderPhases

/-!
# What the header search finds

The score of a window is what its segments add up to, relative to its energy, so it is one at most
(`segmentMag_le`).  Only the window of a header reaches one (`SyncWindow.score_eq`); all others hold
two symbols of one segment that differ behind the reference, or symbols and silence
(`score_lt`).  The first stage of the search, which adds up the whole window, and the second, which
adds up segments, then both end at the header (`HeaderAt.candidate`, `HeaderAt.best`).
-/

namespace OpenVlsnr

open Finset Phasors NearestWord

/-! ### Windows as phasors -/

/-- A symbol as a complex number. -/
def Cplx.toComplex (s : Cplx ℝ) : ℂ := ⟨s.i, s.q⟩

theorem Cplx.toComplex_injective : Function.Injective Cplx.toComplex := fun _ _ h =>
  Cplx.ext (congrArg Complex.re h) (congrArg Complex.im h)

theorem Cplx.norm_toComplex (s : Cplx ℝ) : ‖s.toComplex‖ = √(symbolPower s) := by
  rw [Complex.norm_def, Complex.normSq_apply]
  rfl

theorem Cplx.toComplex_sum (n : ℕ) (z : ℕ → Cplx ℝ) :
    (∑ k ∈ range n, z k).toComplex = ∑ k ∈ range n, (z k).toComplex := by
  induction n with
  | zero => rfl
  | succ n ih =>
    rw [sum_range_succ, sum_range_succ, ← ih]
    rfl

/-- The symbols of a window behind the conjugate of a reference. -/
noncomputable def windowPhasors (sym ref : List (Cplx ℝ)) (pos n : ℕ) : ℂ :=
  (sym.getD (pos + n) 0 * (ref.getD n 0).conj).toComplex

section
variable (sym ref : List (Cplx ℝ)) (pos : ℕ)

/-- What the first stage compares. -/
theorem norm_directCorrelation : √(symbolPower (directCorrelation sym ref pos))
    = ‖∑ n ∈ range vlsnrWhLen, windowPhasors sym ref pos n‖ := by
  rw [← Cplx.norm_toComplex, directCorrelation, Cplx.toComplex_sum]
  rfl

/-- What the second stage compares. -/
theorem segmentMag_eq : segmentMag SyncMath.exact sym ref syncSegLen pos
    = groupMag (range vlsnrWhLen) (· / syncSegLen) (windowPhasors sym ref pos) := by
  have hseg : ∀ k < 7, min (k * syncSegLen + syncSegLen) vlsnrWhLen - k * syncSegLen = syncSegLen := by
    decide
  have hround : ∀ segMag : ℝ, ∀ k : ℕ, segMag + √(symbolPower
      ((List.range' (k * syncSegLen)
          (min (k * syncSegLen + syncSegLen) vlsnrWhLen - k * syncSegLen)).foldl
        (fun s n => s + headerProduct sym pos ref n) 0))
      = segMag + ‖∑ j ∈ range (min (k * syncSegLen + syncSegLen) vlsnrWhLen - k * syncSegLen),
        windowPhasors sym ref pos (k * syncSegLen + j)‖ := by
    intro segMag k
    simp only [headerProduct_eq]
    rw [foldl_range'_eq_sum, zero_add, ← Cplx.norm_toComplex, Cplx.toComplex_sum]
    rfl
  have hfold : segmentMag SyncMath.exact sym ref syncSegLen pos = (List.range 7).foldl
      (fun segMag k => segMag + √(symbolPower
        ((List.range' (k * syncSegLen)
            (min (k * syncSegLen + syncSegLen) vlsnrWhLen - k * syncSegLen)).foldl
          (fun s n => s + headerProduct sym pos ref n) 0))) 0 := rfl
  rw [hfold]
  simp only [hround]
  rw [DelayLine.foldl_add_eq_sum, zero_add, show vlsnrWhLen = 7 * syncSegLen from rfl,
    groupMag_range (by decide)]
  refine sum_congr rfl fun k hk => ?_
  rw [← show vlsnrWhLen = 7 * syncSegLen from rfl, hseg k (mem_range.mp hk)]

/-- The energy of a window is that of its phasors. -/
theorem windowEnergy_eq (href : ∀ n < vlsnrWhLen, symbolPower (ref.getD n 0) = 1) :
    windowEnergy sym pos = ∑ n ∈ range vlsnrWhLen, ‖windowPhasors sym ref pos n‖ ^ 2 := by
  have hconj : ∀ s : Cplx ℝ, symbolPower s.conj = symbolPower s := fun s => by
    simp [symbolPower]
  have hnonneg : ∀ s : Cplx ℝ, 0 ≤ symbolPower s := fun s =>
    add_nonneg (mul_self_nonneg _) (mul_self_nonneg _)
  refine sum_congr rfl fun n hn => ?_
  rw [windowPhasors, Cplx.norm_toComplex, symbolPower_mul, hconj, href n (mem_range.mp hn), mul_one,
    Real.sq_sqrt (hnonneg _)]

/-- The score of a window: `corr`. -/
noncomputable def windowScore : ℝ :=
  segmentMag SyncMath.exact sym ref syncSegLen pos / syncNorm SyncMath.exact (windowEnergy sym pos)

/-- The score of the first stage. -/
noncomputable def wholeScore : ℝ :=
  √(symbolPower (directCorrelation sym ref pos)) / syncNorm SyncMath.exact (windowEnergy sym pos)

variable {sym ref pos}

theorem syncNorm_pos (henergy : 0 < windowEnergy sym pos) :
    0 < syncNorm SyncMath.exact (windowEnergy sym pos) :=
  Real.sqrt_pos.mpr (mul_pos (by norm_num) henergy)

/-- The whole window adds up to no more than its segments. -/
theorem wholeScore_le (henergy : 0 < windowEnergy sym pos) :
    wholeScore sym ref pos ≤ windowScore sym ref pos := by
  rw [wholeScore, windowScore, norm_directCorrelation, segmentMag_eq]
  exact div_le_div_of_nonneg_right norm_sum_le_groupMag (syncNorm_pos henergy).le

theorem windowScore_lt (henergy : 0 < windowEnergy sym pos)
    (h : groupMag (range vlsnrWhLen) (· / syncSegLen) (windowPhasors sym ref pos)
      < √((#(range vlsnrWhLen) : ℝ) * windowEnergy sym pos)) : windowScore sym ref pos < 1 := by
  rw [windowScore, segmentMag_eq, div_lt_one (syncNorm_pos henergy)]
  rwa [card_range] at h

end

/-! ### A burst -/

/-- A frame of `mc` from `lead` on, with nothing before it, behind a gain and a phase; what follows
the frame is left open. -/
structure HeaderAt (mc : Modcod) (goldIdx : ℕ) (bits : List Bool) (lead : ℕ) (g φ : ℝ)
    (sym : List (Cplx ℝ)) : Prop where
  modcod : mc ∈ vlsnrModcodTable
  gain : 0 < g
  before : ∀ k < lead, sym.getD k 0 = 0
  frame : ∀ k < modFrameLen mc,
    sym.getD (lead + k) 0 = phasor g φ * (modFrame Sqrt2.exact mc goldIdx bits).getD k 0

theorem modFrameLen_ge (mc : Modcod) : 16686 ≤ modFrameLen mc := by
  rw [modFrameLen]
  split
  · decide
  · decide

theorem phasor_mul_cancel {g φ : ℝ} (hg : 0 < g) {a b : Cplx ℝ}
    (h : phasor g φ * a = phasor g φ * b) : a = b := by
  have hunit : phasor (1 / g) (-φ) * phasor g φ = 1 := by
    rw [phasor_mul, div_mul_cancel₀ _ hg.ne', neg_add_cancel, phasor_one_zero]
  have hmul := congrArg (phasor (1 / g) (-φ) * ·) h
  simpa only [← mul_assoc, hunit, one_mul] using hmul

theorem reference_power {i n : ℕ} (hi : i < vlsnrNumModcods) (hn : n < vlsnrWhLen) :
    symbolPower (((vlsnrReferences Sqrt2.exact).getD i []).getD n 0) = 1 := by
  rw [reference_quarter hi hn, turn_power]

variable {mc : Modcod} {goldIdx lead : ℕ} {bits : List Bool} {g φ : ℝ} {sym : List (Cplx ℝ)}
  (h : HeaderAt mc goldIdx bits lead g φ sym)
include h

/-- A window that begins before the frame holds silence, and symbols if it has any energy. -/
theorem HeaderAt.early {i pos : ℕ} (hi : i < vlsnrNumModcods) (hpos : pos < lead)
    (henergy : 0 < windowEnergy sym pos) :
    windowScore sym ((vlsnrReferences Sqrt2.exact).getD i []) pos < 1 := by
  have hsum := windowEnergy_eq sym _ pos fun n hn => reference_power hi hn
  obtain ⟨n, hn, hloud⟩ := exists_ne_zero_of_sum_ne_zero (hsum ▸ henergy.ne')
  have hsilent : ‖windowPhasors sym ((vlsnrReferences Sqrt2.exact).getD i []) pos 0‖ = 0 := by
    rw [windowPhasors, Nat.add_zero, h.before pos hpos, zero_mul, norm_eq_zero]
    rfl
  refine windowScore_lt henergy ?_
  rw [hsum]
  refine coherence_lt_of_norm_ne (mem_range.mpr (show 0 < vlsnrWhLen by decide)) hn fun heq => ?_
  rw [← heq, hsilent] at hloud
  exact hloud (zero_pow two_ne_zero)

/-- A window within the frame mixes, unless it is the header. -/
theorem HeaderAt.late {i d : ℕ} (hi : i < vlsnrNumModcods) (hd : d ≤ 4096)
    (hne : ¬(d = 92 ∧ i + 1 = mc.index)) (henergy : 0 < windowEnergy sym (lead + d)) :
    windowScore sym ((vlsnrReferences Sqrt2.exact).getD i []) (lead + d) < 1 := by
  have hseg : syncSegLen = 128 := rfl
  have hwh : vlsnrWhLen = 896 := rfl
  have hlen := modFrameLen_ge mc
  obtain ⟨k, hk, hinside, hmix⟩ := modFrame_mixes h.modcod hi hd hne goldIdx bits
  have hwindow : ∀ n < vlsnrWhLen,
      windowPhasors sym ((vlsnrReferences Sqrt2.exact).getD i []) (lead + d) n
        = (phasor g φ * ((modFrame Sqrt2.exact mc goldIdx bits).getD (d + n) 0
          * (((vlsnrReferences Sqrt2.exact).getD i []).getD n 0).conj)).toComplex := by
    intro n hn
    rw [windowPhasors, Nat.add_assoc, h.frame (d + n) (by omega), mul_assoc]
  refine windowScore_lt henergy ?_
  rw [windowEnergy_eq sym _ _ fun n hn => reference_power hi hn]
  refine coherence_lt_of_ne (a := k) (b := k + 1) (mem_range.mpr (by omega)) (mem_range.mpr hk) ?_
    fun heq => hmix ?_
  · rw [hseg] at hinside ⊢
    omega
  · rw [hwindow k (by omega), hwindow (k + 1) hk] at heq
    exact phasor_mul_cancel h.gain (Cplx.toComplex_injective heq)

/-- The header itself. -/
theorem HeaderAt.score_eq :
    wholeScore sym ((vlsnrReferences Sqrt2.exact).getD (mc.index - 1) []) (lead + 92) = 1 ∧
    windowScore sym ((vlsnrReferences Sqrt2.exact).getD (mc.index - 1) []) (lead + 92) = 1 ∧
    0 < windowEnergy sym (lead + 92) := by
  have hwh : vlsnrWhLen = 896 := rfl
  have hlen := modFrameLen_ge mc
  obtain ⟨hlow, hhigh, -⟩ := modcod_headers mc h.modcod
  have hi : mc.index - 1 < vlsnrNumModcods := by omega
  have hg := h.gain
  have hsame : ∀ n ∈ range vlsnrWhLen,
      windowPhasors sym ((vlsnrReferences Sqrt2.exact).getD (mc.index - 1) []) (lead + 92) n
        = (phasor g φ).toComplex := by
    intro n hn
    have hn' := mem_range.mp hn
    rw [windowPhasors, Nat.add_assoc, h.frame (92 + n) (by omega),
      modFrame_header h.modcod goldIdx bits _ hn', mul_assoc, mul_conj_self,
      reference_power hi hn']
    exact congrArg Cplx.toComplex (mul_one _)
  have hnorm : ‖(phasor g φ).toComplex‖ = g := by
    rw [Cplx.norm_toComplex, phasor_power, Real.sqrt_sq hg.le]
  have henergy : windowEnergy sym (lead + 92) = vlsnrWhLen * g ^ 2 := by
    rw [windowEnergy_eq sym _ _ fun n hn => reference_power hi hn,
      sum_congr rfl fun n hn => by rw [hsame n hn, hnorm], sum_const, card_range, nsmul_eq_mul]
  have hsyncNorm : syncNorm SyncMath.exact (windowEnergy sym (lead + 92)) = vlsnrWhLen * g := by
    rw [henergy, syncNorm]
    show √((vlsnrWhLen : ℝ) * (vlsnrWhLen * g ^ 2)) = vlsnrWhLen * g
    rw [show (vlsnrWhLen : ℝ) * (vlsnrWhLen * g ^ 2) = (vlsnrWhLen * g) ^ 2 by ring,
      Real.sqrt_sq (by positivity)]
  have hne : (vlsnrWhLen : ℝ) * g ≠ 0 := by positivity
  refine ⟨?_, ?_, ?_⟩
  · rw [wholeScore, norm_directCorrelation, sum_congr rfl hsame, sum_const, card_range,
      nsmul_eq_mul, norm_mul, Complex.norm_natCast, hnorm, hsyncNorm, div_self hne]
  · rw [windowScore, segmentMag_eq, coherence_eq hsame, card_range, hnorm, hsyncNorm, div_self hne]
  · rw [henergy]
    positivity

/-! ### The two stages -/

/-- A window within the reach of a frame. -/
theorem HeaderAt.score_lt {i pos len : ℕ} (hi : i < vlsnrNumModcods) (hlen : len ≤ lead + 4992)
    (hpos : pos ≤ len - vlsnrWhLen) (hne : ¬(pos = lead + 92 ∧ i + 1 = mc.index))
    (henergy : 0 < windowEnergy sym pos) :
    windowScore sym ((vlsnrReferences Sqrt2.exact).getD i []) pos < 1 := by
  have hwh : vlsnrWhLen = 896 := rfl
  by_cases hbefore : pos < lead
  · exact h.early hi hbefore henergy
  · obtain ⟨d, rfl⟩ : ∃ d, pos = lead + d := ⟨pos - lead, by omega⟩
    exact h.late hi (by omega) (fun hd => hne ⟨by omega, hd.2⟩) henergy

/-- The score of a position in the first stage, as the arrays have it. -/
noncomputable def firstScore (energy : List ℝ) (work : List (Cplx ℝ)) (pos : ℕ) : ℝ :=
  √(symbolPower (work.getD (pos + vlsnrWhLen - 1) 0))
    / syncNorm SyncMath.exact (energy.getD pos 0)

omit h in
/-- The rounds of the first stage keep the best of the windows with any energy. -/
theorem candidateRounds_eq (energy : List ℝ) (work : List (Cplx ℝ)) (s : ℝ × ℕ) (l : List ℕ) :
    l.foldl (candidateRound SyncMath.exact energy work) s
      = (l.filter fun pos => 0 < energy.getD pos 0).foldl
        (keepBest (firstScore energy work)) s := by
  rw [List.foldl_filter]
  refine congrFun (congrFun (congrArg List.foldl ?_) s) l
  funext s pos
  rw [candidateRound]
  by_cases henergy : energy.getD pos 0 ≤ 0
  · have hskip : ¬decide (0 < energy.getD pos 0) = true := by simpa using henergy
    rw [if_pos henergy, if_neg hskip]
  · have hkeep : decide (0 < energy.getD pos 0) = true := decide_eq_true (not_le.mp henergy)
    rw [if_neg henergy, if_pos (c := decide (0 < energy.getD pos 0) = true) hkeep]
    rfl

omit h in
theorem syncArrays_energy_length {fuel : ℕ} {t : SyncTables ℝ} {len preferredModcod : ℕ}
    {allocated : Bool} {arrays : SyncArrays ℝ}
    (hrun : syncArrays SyncMath.exact fuel t sym len preferredModcod allocated
      = some (some arrays)) : arrays.energy.length = len - vlsnrWhLen + 1 := by
  rw [syncArrays] at hrun
  split at hrun
  · simp at hrun
  split at hrun
  · simp at hrun
  split at hrun
  · simp at hrun
  split at hrun
  · simp at hrun
  · obtain ⟨inputFft, -, hrun⟩ := Option.bind_eq_some_iff.mp hrun
    obtain ⟨works, -, hrun⟩ := Option.bind_eq_some_iff.mp hrun
    rw [← Option.some.inj (Option.some.inj hrun)]
    simp

variable {len : ℕ} {arrays : SyncArrays ℝ} {mcs : List ℕ}
  (hlow : lead + 988 ≤ len) (hhigh : len ≤ lead + 4992)
  (harrays : arrays.Direct sym (vlsnrReferences Sqrt2.exact) len mcs)
  (hlength : arrays.energy.length = len - vlsnrWhLen + 1)
include hlow hhigh harrays hlength

omit hlow hhigh h in
/-- The first stage ends within the symbols, at a window with the energy that the array says. -/
theorem candidate_energy (w : ℕ × List (Cplx ℝ)) {pos : ℕ}
    (hpos : ((List.range arrays.energy.length).foldl
      (candidateRound SyncMath.exact arrays.energy w.2) (0, 0)).2 = pos) :
    pos ≤ len - vlsnrWhLen ∧ arrays.energy.getD pos 0 = windowEnergy sym pos := by
  have hin : pos ≤ len - vlsnrWhLen := by
    rw [candidateRounds_eq] at hpos
    rcases foldl_keepBest_mem (firstScore arrays.energy w.2)
      ((List.range arrays.energy.length).filter fun pos => 0 < arrays.energy.getD pos 0) (0, 0)
      with hstart | ⟨a, ha, hend⟩
    · rw [hstart] at hpos
      omega
    · rw [hend] at hpos
      have := List.mem_range.mp (List.mem_filter.mp ha).1
      rw [← hpos]
      omega
  exact ⟨hin, harrays.energy pos hin⟩

/-- **The first stage** of the right MODCOD ends at the header. -/
theorem HeaderAt.candidate {w : ℕ × List (Cplx ℝ)} (hw : w ∈ arrays.work)
    (hmc : w.1 + 1 = mc.index) :
    ((List.range arrays.energy.length).foldl
      (candidateRound SyncMath.exact arrays.energy w.2) (0, 0)) = (1, lead + 92) := by
  have hwh : vlsnrWhLen = 896 := rfl
  obtain ⟨hmcLow, hmcHigh, -⟩ := modcod_headers mc h.modcod
  obtain ⟨hwhole, -, henergy⟩ := h.score_eq
  have hscore : ∀ pos ≤ len - vlsnrWhLen, firstScore arrays.energy w.2 pos
      = wholeScore sym ((vlsnrReferences Sqrt2.exact).getD (mc.index - 1) []) pos := by
    intro pos hpos
    rw [firstScore, harrays.work w hw pos hpos, harrays.energy pos hpos, wholeScore,
      show w.1 = mc.index - 1 by omega]
  have hhere := hscore (lead + 92) (by omega)
  rw [hwhole] at hhere
  rw [candidateRounds_eq, keepBest_unique (a := lead + 92), hhere]
  · refine List.mem_filter.mpr ⟨List.mem_range.mpr (by omega), ?_⟩
    rw [harrays.energy _ (by omega)]
    exact decide_eq_true henergy
  · rw [hhere]
    exact zero_lt_one
  · intro pos hpos hne
    obtain ⟨hrange, hloud⟩ := List.mem_filter.mp hpos
    have hin : pos ≤ len - vlsnrWhLen := by
      have := List.mem_range.mp hrange
      omega
    have hloud' : 0 < windowEnergy sym pos := by
      rw [← harrays.energy pos hin]
      exact of_decide_eq_true hloud
    rw [hhere, hscore pos hin]
    exact (wholeScore_le hloud').trans_lt
      (h.score_lt (by omega) hhigh hin (fun hpos => hne hpos.1) hloud')

/-- What the search is to end with. -/
def foundHeader (mc : Modcod) (lead : ℕ) : HeaderSync ℝ := ⟨1, lead + 92, mc.index⟩

variable {t : SyncTables ℝ} (href : t.vlsnrRef = vlsnrReferences Sqrt2.exact)
include href

/-- **A round of the second stage** ends below one, or with the header; the right MODCOD finds it,
and what is found stays. -/
theorem HeaderAt.round {w : ℕ × List (Cplx ℝ)} (hw : w ∈ arrays.work) (hi : w.1 < vlsnrNumModcods)
    {best : HeaderSync ℝ} (hbest : best.conf < 1 ∨ best = foundHeader mc lead) :
    let next := bestRound SyncMath.exact t sym arrays.energy syncSegLen best w
    (next.conf < 1 ∨ next = foundHeader mc lead) ∧
    (best = foundHeader mc lead ∨ w.1 + 1 = mc.index → next = foundHeader mc lead) := by
  have hwh : vlsnrWhLen = 896 := rfl
  obtain ⟨-, hscore, hloud⟩ := h.score_eq
  obtain ⟨pos, hpos⟩ : ∃ pos, ((List.range arrays.energy.length).foldl
    (candidateRound SyncMath.exact arrays.energy w.2) (0, 0)).2 = pos := ⟨_, rfl⟩
  obtain ⟨hin, henergy⟩ := candidate_energy harrays hlength w hpos
  have hround : bestRound SyncMath.exact t sym arrays.energy syncSegLen best w
      = if windowEnergy sym pos ≤ 0 then best
        else if best.conf < windowScore sym ((vlsnrReferences Sqrt2.exact).getD w.1 []) pos then
          ⟨windowScore sym ((vlsnrReferences Sqrt2.exact).getD w.1 []) pos, pos, w.1 + 1⟩
        else best := by
    rw [bestRound, hpos, henergy, href]
    rfl
  dsimp only
  rw [hround]
  by_cases hown : w.1 + 1 = mc.index
  · -- the right MODCOD
    rw [h.candidate hlow hhigh harrays hlength hw hown] at hpos
    obtain rfl : lead + 92 = pos := hpos
    rw [show w.1 = mc.index - 1 by omega, hscore, if_neg (not_le.mpr hloud),
      show mc.index - 1 + 1 = mc.index by omega]
    rcases hbest with hlow | rfl
    · rw [if_pos hlow]
      exact ⟨.inr rfl, fun _ => rfl⟩
    · have hfull : ¬(foundHeader mc lead).conf < 1 := lt_irrefl (1 : ℝ)
      rw [if_neg hfull]
      exact ⟨.inr rfl, fun _ => rfl⟩
  · -- any other stays below one
    split
    · exact ⟨hbest, fun hfound => hfound.resolve_right hown⟩
    · rename_i hpositive
      have hlt := h.score_lt hi hhigh hin (fun hpos => hown hpos.2) (not_le.mp hpositive)
      split
      · rename_i hless
        refine ⟨.inl hlt, fun hfound => ?_⟩
        rw [hfound.resolve_right hown] at hless
        exact absurd (hless.trans hlt) (lt_irrefl _)
      · exact ⟨hbest, fun hfound => hfound.resolve_right hown⟩

/-- **The second stage** ends at the header, in whatever order it goes through the MODCODs. -/
theorem HeaderAt.rounds {works : List (ℕ × List (Cplx ℝ))} :
    ∀ {best : HeaderSync ℝ}, (∀ w ∈ works, w ∈ arrays.work ∧ w.1 < vlsnrNumModcods) →
      (best.conf < 1 ∨ best = foundHeader mc lead) →
      (best = foundHeader mc lead ∨ ∃ w ∈ works, w.1 + 1 = mc.index) →
      works.foldl (bestRound SyncMath.exact t sym arrays.energy syncSegLen) best
        = foundHeader mc lead := by
  induction works with
  | nil =>
    intro best _ _ hown
    rcases hown with hfound | ⟨w, hw, -⟩
    · exact hfound
    · exact absurd hw List.not_mem_nil
  | cons w works ih =>
    intro best hworks hbest hown
    obtain ⟨hw, hi⟩ := hworks w List.mem_cons_self
    obtain ⟨hnext, hfound⟩ := h.round hlow hhigh harrays hlength href hw hi hbest
    rw [List.foldl_cons]
    refine ih (fun w' hw' => hworks w' (List.mem_cons_of_mem _ hw')) hnext ?_
    rcases hown with hstart | ⟨w', hw', hindex⟩
    · exact .inl (hfound (.inl hstart))
    · rcases List.mem_cons.mp hw' with rfl | hrest
      · exact .inl (hfound (.inr hindex))
      · exact .inr ⟨w', hrest, hindex⟩

omit harrays hlength href in
/-- **The search finds the header**: over all MODCODs or over the right one, with whatever the
library has done before, it ends with the MODCOD and the position of the frame and full confidence,
as long as its window ends within a few thousand symbols of the frame. -/
theorem HeaderAt.search (ht : SyncReach Sqrt2.exact SyncMath.exact t) (hlen : len ≤ 2 ^ 30 - 895)
    {preferredModcod : ℕ} (hsearched : mc.index - 1 ∈ searchedModcods preferredModcod) {fuel : ℕ}
    (hfuel : 2 ^ 30 + 31 ≤ fuel) :
    ∃ t', vlsnrHeaderSyncMode Sqrt2.exact SyncMath.exact fuel t sym len syncSegLen preferredModcod
      true = some (t', foundHeader mc lead) := by
  have hwh : vlsnrWhLen = 896 := rfl
  obtain ⟨hmcLow, hmcHigh, -⟩ := modcod_headers mc h.modcod
  have hvalid := ht.valid
  obtain ⟨t', hinit⟩ := hvalid.init_returns (show 8192 + 31 ≤ fuel by omega)
  obtain ⟨hvalid', hfilled⟩ := hvalid.init hinit
  have href := hvalid'.ref (hvalid'.filled hfilled).1
  obtain ⟨arrays, hrun, hdirect⟩ :=
    syncArrays_direct hvalid' hfilled (show vlsnrWhLen ≤ len by omega) hlen hfuel sym preferredModcod
  have hlength : arrays.energy.length = len - vlsnrWhLen + 1 := syncArrays_energy_length hrun
  rw [href] at hdirect
  refine ⟨t', ?_⟩
  have hcorr : syncCorrelations Sqrt2.exact SyncMath.exact fuel t sym len preferredModcod true
      = some (t', some arrays) := by
    rw [syncCorrelations, hinit, Option.bind_eq_bind, Option.bind_some, hrun]
    rfl
  have hmem : ∀ w ∈ arrays.work, w ∈ arrays.work ∧ w.1 < vlsnrNumModcods := by
    intro w hw
    refine ⟨hw, searchedModcods_lt preferredModcod _ ?_⟩
    rw [← hdirect.modcods]
    exact List.mem_map_of_mem hw
  obtain ⟨w, hw, hindex⟩ := List.mem_map.mp (hdirect.modcods.symm ▸ hsearched)
  rw [vlsnrHeaderSyncMode, if_neg (show ¬(syncSegLen = 0 ∨ vlsnrWhLen < syncSegLen) by decide), hcorr]
  refine congrArg (fun best => some (t', best)) ?_
  refine h.rounds hlow hhigh hdirect hlength href hmem (.inl (by norm_num)) (.inr ⟨w, hw, ?_⟩)
  omega

/-! ### Bursts -/

omit h hlow hhigh harrays hlength href

/-- What the receiver gets when `lead` symbols of silence go before a frame. -/
noncomputable def burst (mc : Modcod) (goldIdx : ℕ) (bits : List Bool) (lead : ℕ) (tail : List (Cplx ℝ)) :
    List (Cplx ℝ) :=
  List.replicate lead 0 ++ (modFrame Sqrt2.exact mc goldIdx bits ++ tail)

theorem headerAt_burst (hmc : mc ∈ vlsnrModcodTable) (hg : 0 < g) (tail : List (Cplx ℝ)) :
    HeaderAt mc goldIdx bits lead g φ (onCarrier g φ 0 (burst mc goldIdx bits lead tail)) where
  modcod := hmc
  gain := hg
  before := by
    intro k hk
    rw [onCarrier_getD, burst, List.getD_append _ _ _ _ (by rwa [List.length_replicate]),
      List.getD_replicate _ hk, mul_zero]
  frame := by
    intro k hk
    rw [onCarrier_getD, mul_zero, mul_zero, add_zero, burst,
      List.getD_append_right _ _ _ _ (by rw [List.length_replicate]; omega),
      List.length_replicate, Nat.add_sub_cancel_left,
      List.getD_append _ _ _ _ (by rwa [modFrame_length _ hmc])]

/-- **Every burst is found**, with full confidence and at its own position and MODCOD, when the
carrier is off: whatever the frame carries, its scrambling, what follows it and what the library
has done before. -/
theorem headerSearch_burst (hmc : mc ∈ vlsnrModcodTable) (hg : 0 < g) (tail : List (Cplx ℝ))
    (hlow : lead + 988 ≤ len) (hhigh : len ≤ lead + 4992) (hlen : len ≤ 2 ^ 30 - 895)
    (ht : SyncReach Sqrt2.exact SyncMath.exact t) {fuel : ℕ} (hfuel : 2 ^ 30 + 31 ≤ fuel) :
    ∀ preferredModcod, preferredModcod = mc.index ∨ preferredModcod = 0 ∨
        vlsnrNumModcods < preferredModcod → ∃ t',
      vlsnrHeaderSyncMode Sqrt2.exact SyncMath.exact fuel t
        (onCarrier g φ 0 (burst mc goldIdx bits lead tail)) len syncSegLen preferredModcod true
        = some (t', ⟨1, lead + 92, mc.index⟩) := by
  intro preferredModcod hpreferred
  refine (headerAt_burst hmc hg tail).search hlow hhigh ht hlen ?_ hfuel
  obtain ⟨hmcLow, hmcHigh, -⟩ := modcod_headers mc hmc
  rw [searchedModcods]
  split
  · rcases hpreferred with rfl | rfl | hout
    · exact List.mem_singleton.mpr rfl
    · omega
    · omega
  · exact List.mem_range.mpr (by omega)

/-- A header behind ten symbols of silence, and nothing of its frame. -/
theorem headerSearch_burst_short : ∃ mc ∈ vlsnrModcodTable, ∃ t',
    vlsnrHeaderSyncMode Sqrt2.exact SyncMath.exact (2 ^ 30 + 31) .start
      (onCarrier 2 1 0 (burst mc 0 [] 10 [])) 998 syncSegLen 0 true
      = some (t', ⟨1, 102, mc.index⟩) :=
  ⟨_, List.mem_cons_self, headerSearch_burst List.mem_cons_self two_pos [] (by decide) (by decide)
    (by decide) .start le_rfl 0 (.inr (.inl rfl))⟩

end OpenVlsnr
