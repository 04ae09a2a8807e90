import OpenVlsnr.CarrierRecovery
import OpenVlsnr.DemodRetry
import OpenVlsnr.Streaks

/-!
# The frequency loop (`sync_afc.c`)

`dvbs2x_afc_update` commits to a raw estimate only behind three agreements in a row, and by a
clamped step.  Over any run of raw estimates the counter is a streak counter (`AfcTrace`), so the
loop estimate is the sum of the clamped estimates at the steady frames.  In any run of a demodulator
these are the estimates that its calls have made since the lock was last lost (`demodRun_afc`).

Closed around an offset `f`, that is with raw estimates within `ε` of what the loop estimate leaves,
the loop never moves away from `f` by more than `ε`, and every four frames take it one step nearer
(`afc_settles`): estimates that do not agree stop it for three frames at most.
-/

namespace OpenVlsnr

open Finset

section
variable {R : Type*} [Field R] [LinearOrder R]

/-! ### Raw estimates -/

/-- The loop behind the first `n` raw estimates. -/
def afcAfter (raw : ℕ → R) : ℕ → Afc R
  | 0 => afcInit
  | n + 1 => afcUpdate (afcAfter raw n) (raw n)

theorem afcAfter_congr {raw raw' : ℕ → R} {n : ℕ} (h : ∀ k < n, raw k = raw' k) :
    afcAfter raw n = afcAfter raw' n := by
  induction n with
  | zero => rfl
  | succ n ih =>
    rw [afcAfter, afcAfter, ih fun k hk => h k (hk.trans (Nat.lt_succ_self n)), h n (Nat.lt_succ_self n)]

instance atLeastTwo_twentyThousand : Nat.AtLeastTwo 20000 := inferInstance

/-- The last four raw estimates up to `k` agree, each with the one before. -/
def Steady (raw : ℕ → R) (k : ℕ) : Prop :=
  3 ≤ k ∧ ∀ i < 3, |raw (k - i) - raw (k - i - 1)| < 3 / 20000

instance (raw : ℕ → R) (k : ℕ) : Decidable (Steady raw k) :=
  inferInstanceAs (Decidable (_ ∧ _))

/-- Estimate `k + 1` agrees with estimate `k`. -/
def agrees (raw : ℕ → R) (k : ℕ) : Bool := |raw (k + 1) - raw k| < 3 / 20000

theorem steady_iff_streak (raw : ℕ → R) (k : ℕ) :
    Steady raw k ↔ Streak (agrees raw) true afcLockFrames 0 k := by
  have hlock : afcLockFrames = 3 := rfl
  constructor
  · rintro ⟨hk, hagree⟩
    refine ⟨by omega, fun i hlow hhigh => ?_⟩
    have h := hagree (k - 1 - i) (by omega)
    rw [show k - (k - 1 - i) = i + 1 by omega, Nat.add_sub_cancel] at h
    exact decide_eq_true h
  · rintro ⟨hk, hrun⟩
    have hk' : 3 ≤ k := by omega
    refine ⟨hk', fun i hi => ?_⟩
    have h := of_decide_eq_true (hrun (k - 1 - i) (by omega) (by omega))
    rwa [show k - 1 - i + 1 = k - i by omega, show k - 1 - i = k - i - 1 by omega] at h

/-- What the loop knows behind `n` raw estimates. -/
structure AfcTrace (raw : ℕ → R) (n : ℕ) (afc : Afc R) : Prop where
  frames : afc.frames = n
  rawPrev : ∀ k, n = k + 1 → afc.rawPrev = raw k
  run : ∃ c, CurrentRun (agrees raw) true 0 (n - 1) c ∧ afc.consistent = min c afcLockFrames
  locked : afc.locked = true ↔ 0 < n ∧ Steady raw (n - 1)
  freqEst : afc.freqEst = ∑ k ∈ range n, if Steady raw k then afcStep (raw k) else 0

theorem AfcTrace.start (raw : ℕ → R) : AfcTrace raw 0 afcInit :=
  ⟨rfl, fun k hk => absurd hk.symm (Nat.succ_ne_zero k),
    ⟨0, .start _ _ _, rfl⟩, ⟨fun h => absurd h Bool.false_ne_true, fun h => absurd h.1 (lt_irrefl 0)⟩,
    rfl⟩

/-- The counter of one update. -/
def afcConsistent (afc : Afc R) (frames : ℕ) (fRaw : R) : ℕ :=
  if frames > 1 ∧ |fRaw - afc.rawPrev| < 3 / 20000 then
    if afc.consistent < afcLockFrames then afc.consistent + 1 else afc.consistent
  else 0

theorem afcUpdate_eq (afc : Afc R) (fRaw : R) (frames : ℕ) (hframes : (afc.frames + 1) % 2 ^ 32 = frames) :
    afcUpdate afc fRaw =
      { freqEst := afc.freqEst
          + if afcLockFrames ≤ afcConsistent afc frames fRaw then afcStep fRaw else 0
        frames := frames
        locked := decide (afcLockFrames ≤ afcConsistent afc frames fRaw)
        rawPrev := fRaw
        consistent := afcConsistent afc frames fRaw } := by
  subst hframes
  rw [afcUpdate]
  by_cases h : afcLockFrames ≤ afcConsistent afc ((afc.frames + 1) % 2 ^ 32) fRaw
  · rw [if_pos h, decide_eq_true h]
    exact if_pos h
  · rw [if_neg h, decide_eq_false h, add_zero]
    exact if_neg h

/-- **One estimate more.** -/
theorem AfcTrace.step {raw : ℕ → R} {n : ℕ} {afc : Afc R} (h : AfcTrace raw n afc)
    (hn : n + 1 < 2 ^ 32) : AfcTrace raw (n + 1) (afcUpdate afc (raw n)) := by
  obtain ⟨c, hrun, hcount⟩ := h.run
  -- the counter, and what it says about the last estimates
  obtain ⟨c', hrun', hcount'⟩ : ∃ c', CurrentRun (agrees raw) true 0 n c' ∧
      afcConsistent afc (n + 1) (raw n) = min c' afcLockFrames := by
    rw [afcConsistent]
    cases n with
    | zero => exact ⟨0, .start _ _ _, if_neg fun h => absurd h.1 (lt_irrefl 1)⟩
    | succ m =>
      rw [h.rawPrev m rfl]
      by_cases hagree : |raw (m + 1) - raw m| < 3 / 20000
      · refine ⟨c + 1, hrun.extend (decide_eq_true hagree), ?_⟩
        rw [if_pos ⟨by omega, hagree⟩, hcount]
        split <;> omega
      · exact ⟨0, .broken (Nat.zero_le _) fun ho => hagree (of_decide_eq_true ho),
          if_neg fun h => hagree h.2⟩
  have hsteady : afcLockFrames ≤ afcConsistent afc (n + 1) (raw n) ↔ Steady raw n := by
    rw [steady_iff_streak, hrun'.streak_iff, hcount']
    omega
  rw [afcUpdate_eq afc (raw n) (n + 1) (by rw [h.frames, Nat.mod_eq_of_lt hn])]
  refine ⟨rfl, fun k hk => congrArg raw (Nat.succ.inj hk), ⟨c', hrun', hcount'⟩, ?_, ?_⟩
  · show decide _ = true ↔ _
    rw [decide_eq_true_iff, hsteady, Nat.add_sub_cancel]
    exact ⟨fun h => ⟨Nat.succ_pos n, h⟩, fun h => h.2⟩
  · rw [sum_range_succ, ← h.freqEst]
    simp only [hsteady]

/-- **A whole run.** -/
theorem afcAfter_trace (raw : ℕ → R) {n : ℕ} (hn : n < 2 ^ 32) : AfcTrace raw n (afcAfter raw n) := by
  induction n with
  | zero => exact .start raw
  | succ n ih => exact (ih (by omega)).step hn

section
variable [IsStrictOrderedRing R]

theorem abs_afcStep_le (fRaw : R) : |afcStep fRaw| ≤ 1 / 5000 := by
  rw [afcStep, abs_le]
  split
  · constructor <;> norm_num
  · split
    · constructor <;> norm_num
    · constructor <;> linarith

/-- A sum of clamped estimates; the first three frames are not steady. -/
theorem abs_steadySum_le (raw : ℕ → R) (n : ℕ) :
    |∑ k ∈ range n, if Steady raw k then afcStep (raw k) else 0| ≤ ((n - 3 : ℕ) : R) / 5000 := by
  have hterm : ∀ k ∈ range n, |if Steady raw k then afcStep (raw k) else 0|
      ≤ if 3 ≤ k then (1 / 5000 : R) else 0 := by
    intro k _
    by_cases hsteady : Steady raw k
    · rw [if_pos hsteady, if_pos hsteady.1]
      exact abs_afcStep_le _
    · rw [if_neg hsteady, abs_zero]
      split
      · positivity
      · exact le_rfl
  have hfilter : (range n).filter (3 ≤ ·) = Ico 3 n := by
    ext k
    simp [and_comm]
  calc |∑ k ∈ range n, if Steady raw k then afcStep (raw k) else 0|
      ≤ ∑ k ∈ range n, |if Steady raw k then afcStep (raw k) else 0| := abs_sum_le_sum_abs _ _
    _ ≤ ∑ k ∈ range n, if 3 ≤ k then (1 / 5000 : R) else 0 := sum_le_sum hterm
    _ = ((n - 3 : ℕ) : R) / 5000 := by
        rw [← sum_filter, sum_const, nsmul_eq_mul, mul_one_div, hfilter, Nat.card_Ico]

/-! ### The closed loop -/

/-- A commit takes one step off, down to the error of the estimate. -/
theorem abs_sub_afcStep_le {r m ε : R} (hm : |m - r| ≤ ε) :
    |r - afcStep m| ≤ max ε (|r| - 1 / 5000) := by
  obtain ⟨hlow, hhigh⟩ := abs_le.mp hm
  have hε : ε ≤ max ε (|r| - 1 / 5000) := le_max_left _ _
  have hstep : |r| - 1 / 5000 ≤ max ε (|r| - 1 / 5000) := le_max_right _ _
  have hr := le_abs_self r
  have hr' := neg_abs_le r
  rw [afcStep, abs_le]
  split
  · constructor <;> linarith
  · split
    · constructor <;> linarith
    · constructor <;> linarith

variable {raw : ℕ → R} {f ε : R}

/-- No update moves the estimate away, but for the error. -/
theorem afcAfter_near (hraw : ∀ k, |raw k - (f - (afcAfter raw k).freqEst)| ≤ ε) (n : ℕ) :
    |f - (afcAfter raw (n + 1)).freqEst| ≤ max ε |f - (afcAfter raw n).freqEst| := by
  rw [afcAfter, afcUpdate_eq _ _ _ rfl]
  dsimp only
  split
  · rw [← sub_sub]
    refine (abs_sub_afcStep_le (hraw n)).trans (max_le_max le_rfl ?_)
    linarith
  · rw [add_zero]
    exact le_max_right _ _

theorem afcAfter_within (hraw : ∀ k, |raw k - (f - (afcAfter raw k).freqEst)| ≤ ε) {m n : ℕ}
    (hmn : m ≤ n) :
    |f - (afcAfter raw n).freqEst| ≤ max ε |f - (afcAfter raw m).freqEst| := by
  induction n, hmn using Nat.le_induction with
  | base => exact le_max_right _ _
  | succ n hmn ih =>
    exact (afcAfter_near hraw n).trans (max_le (le_max_left _ _) ih)

omit [IsStrictOrderedRing R] in
/-- One frame of a run. -/
theorem afcAfter_succ (raw : ℕ → R) {n : ℕ} (hn : n + 1 < 2 ^ 32) :
    (afcAfter raw (n + 1)).freqEst
      = (afcAfter raw n).freqEst + if Steady raw n then afcStep (raw n) else 0 := by
  rw [(afcAfter_trace raw hn).freqEst, (afcAfter_trace raw (Nat.lt_of_succ_lt hn)).freqEst,
    sum_range_succ]

/-- Estimates of one offset agree while the loop stands still, so **four frames hold a commit**. -/
theorem exists_steady (hε : 2 * ε < 3 / 20000)
    (hraw : ∀ k, |raw k - (f - (afcAfter raw k).freqEst)| ≤ ε) {n : ℕ} (hn : n + 4 < 2 ^ 32) :
    ∃ i < 4, Steady raw (n + i) := by
  by_contra hnone
  push Not at hnone
  have hstill : ∀ i ≤ 3, (afcAfter raw (n + i)).freqEst = (afcAfter raw n).freqEst := by
    intro i hi
    induction i with
    | zero => rfl
    | succ i ih =>
      rw [← Nat.add_assoc, afcAfter_succ raw (by omega), if_neg (hnone i (by omega)), add_zero,
        ih (by omega)]
  refine hnone 3 (by omega) ⟨by omega, fun i hi => ?_⟩
  have hnow := hraw (n + 3 - i)
  have hbefore := hraw (n + 3 - i - 1)
  rw [show n + 3 - i = n + (3 - i) by omega, hstill _ (by omega)] at hnow
  rw [show n + 3 - i - 1 = n + (2 - i) by omega, hstill _ (by omega)] at hbefore
  rw [show n + 3 - i - 1 = n + (2 - i) by omega, show n + 3 - i = n + (3 - i) by omega]
  obtain ⟨h₁, h₂⟩ := abs_le.mp hnow
  obtain ⟨h₃, h₄⟩ := abs_le.mp hbefore
  rw [abs_lt]
  constructor <;> linarith

/-- **Four frames** take one step off. -/
theorem afcAfter_four (hε : 2 * ε < 3 / 20000)
    (hraw : ∀ k, |raw k - (f - (afcAfter raw k).freqEst)| ≤ ε) {n : ℕ} (hn : n + 4 < 2 ^ 32) :
    |f - (afcAfter raw (n + 4)).freqEst|
      ≤ max ε (|f - (afcAfter raw n).freqEst| - 1 / 5000) := by
  obtain ⟨i, hi, hsteady⟩ := exists_steady hε hraw hn
  -- the commit, and what the frames around it may do
  have hcommit : |f - (afcAfter raw (n + i + 1)).freqEst|
      ≤ max ε (|f - (afcAfter raw (n + i)).freqEst| - 1 / 5000) := by
    rw [afcAfter_succ raw (by omega), if_pos hsteady, ← sub_sub]
    exact abs_sub_afcStep_le (hraw (n + i))
  have hbefore := afcAfter_within hraw (Nat.le_add_right n i)
  have hafter := afcAfter_within hraw (show n + i + 1 ≤ n + 4 by omega)
  have hbound : |f - (afcAfter raw (n + i)).freqEst| - 1 / 5000
      ≤ max ε (|f - (afcAfter raw n).freqEst| - 1 / 5000) := by
    rcases le_max_iff.mp hbefore with h | h
    · exact le_max_of_le_left (by linarith)
    · exact le_max_of_le_right (by linarith)
  exact hafter.trans (max_le (le_max_left _ _)
    (hcommit.trans (max_le (le_max_left _ _) hbound)))

theorem afcAfter_fours (hε : 2 * ε < 3 / 20000)
    (hraw : ∀ k, |raw k - (f - (afcAfter raw k).freqEst)| ≤ ε) {m : ℕ} (hm : 4 * m < 2 ^ 32) :
    |f - (afcAfter raw (4 * m)).freqEst| ≤ max ε (|f| - (m : R) / 5000) := by
  induction m with
  | zero => simp [afcAfter, afcInit]
  | succ m ih =>
    have hfour := afcAfter_four hε hraw (show 4 * m + 4 < 2 ^ 32 by omega)
    rw [show 4 * (m + 1) = 4 * m + 4 by omega]
    refine hfour.trans (max_le (le_max_left _ _) ?_)
    rw [Nat.cast_add, Nat.cast_one]
    rcases le_max_iff.mp (ih (by omega)) with h | h
    · exact le_max_of_le_left (by linarith)
    · exact le_max_of_le_right (by linarith)

/-- **The loop settles.**  When every raw estimate is within `ε` of what the loop estimate leaves of
the offset `f`, the loop is never further from `f` than it started, but for `ε`, and every four
frames take it one step nearer, down to `ε`. -/
theorem afc_settles (hε : 2 * ε < 3 / 20000)
    (hraw : ∀ k, |raw k - (f - (afcAfter raw k).freqEst)| ≤ ε) :
    (∀ n, |f - (afcAfter raw n).freqEst| ≤ max ε |f|) ∧
      ∀ n < 2 ^ 32, |f - (afcAfter raw n).freqEst| ≤ max ε (|f| - ((n / 4 : ℕ) : R) / 5000) := by
  constructor
  · intro n
    have h := afcAfter_within hraw (Nat.zero_le n)
    rwa [afcAfter, afcInit, sub_zero] at h
  · intro n hn
    have hle : 4 * (n / 4) ≤ n := Nat.mul_div_le n 4
    exact (afcAfter_within hraw hle).trans
      (max_le (le_max_left _ _) (afcAfter_fours hε hraw (hle.trans_lt hn)))

end

/-! ### The loop in a demodulator -/

/-- The raw estimate that a call makes: one for every frame that it tries to decode outside of
`SEARCH`. -/
def SymbolCall.estimate (call : SymbolCall R) : Option R :=
  match detected call.rx call.demod call.input with
  | none => none
  | some (mc, sync) =>
      if frameFits mc sync call.input.length ∧ call.demod.state ≠ .search then
        some (call.rx.afcRaw mc sync.offset (frameWork call.rx call.demod call.input mc sync))
      else none

/-- The raw estimate that an operation makes. -/
def DemodOp.estimate (demod : Demodulator R) (op : DemodOp R) : Option R :=
  (symbolCall demod op).bind SymbolCall.estimate

/-- The operation loses the lock. -/
def DemodOp.losesLock (demod : Demodulator R) (op : DemodOp R) : Prop :=
  demod.state ≠ .search ∧ (demodStep demod op).state = .search

instance (demod : Demodulator R) (op : DemodOp R) : Decidable (op.losesLock demod) :=
  inferInstanceAs (Decidable (_ ∧ _))

/-- The raw estimates that the calls of a run make since the lock was last lost, `log` being those
before the run. -/
def estimatesSince : Demodulator R → List R → List (DemodOp R) → List R
  | _, log, [] => log
  | demod, log, op :: ops =>
      estimatesSince (demodStep demod op)
        (if op.losesLock demod then [] else log ++ (op.estimate demod).toList) ops

/-- The loop behind a list of raw estimates. -/
def afcBehind (log : List R) : Afc R := log.foldl afcUpdate afcInit

theorem afcBehind_append (log : List R) (estimate : Option R) :
    afcBehind (log ++ estimate.toList)
      = estimate.elim (afcBehind log) (afcUpdate (afcBehind log)) := by
  rw [afcBehind, List.foldl_append]
  cases estimate <;> rfl

/-- It is the loop behind as many entries of the sequence of them. -/
theorem afcBehind_eq (log : List R) :
    afcBehind log = afcAfter (fun k => log.getD k 0) log.length := by
  induction log using List.reverseRecOn with
  | nil => rfl
  | append_singleton log fRaw ih =>
    have hlast : (log ++ [fRaw]).getD log.length 0 = fRaw := by
      rw [List.getD_append_right _ _ _ _ le_rfl, Nat.sub_self]
      rfl
    have hbefore : afcAfter (fun k => (log ++ [fRaw]).getD k 0) log.length
        = afcAfter (fun k => log.getD k 0) log.length :=
      afcAfter_congr fun k hk => List.getD_append _ _ _ _ hk
    rw [List.length_append, List.length_singleton, afcAfter, hbefore, hlast, ← ih]
    exact afcBehind_append log (some fRaw)

/-! ### One operation -/

section
variable {rx : RxStages R} {demod : Demodulator R} {input : List (Cplx R)} {noiseVar : R}

/-- What an attempt does to lock state and loop. -/
structure Attempted (rx : RxStages R) (demod : Demodulator R) (input : List (Cplx R))
    (after : Demodulator R) : Prop where
  state : after.state = demod.state
  afc : after.afc = (SymbolCall.estimate ⟨rx, demod, input⟩).elim demod.afc (afcUpdate demod.afc)

theorem estimate_of_fits {mc : Modcod} {sync : HeaderSync R}
    (hdet : detected rx demod input = some (mc, sync)) (hfits : frameFits mc sync input.length) :
    (SymbolCall.estimate ⟨rx, demod, input⟩).elim demod.afc (afcUpdate demod.afc)
      = frameAfc rx demod input mc sync := by
  unfold SymbolCall.estimate
  dsimp only
  rw [hdet, frameAfc]
  dsimp only
  by_cases hstate : demod.state ≠ .search
  · rw [if_pos ⟨hfits, hstate⟩, if_pos hstate]
    rfl
  · rw [if_neg fun h => hstate h.2, if_neg hstate]
    rfl

theorem demodulateBbframeSymbols_attempted (hnoise : ¬noiseVar < 0) (output : List Bool)
    (capacity : ℕ) :
    Attempted rx demod input
      (demodulateBbframeSymbols rx demod input noiseVar output capacity).demod := by
  have h := demodulateBbframeSymbols_outcome rx demod input noiseVar output capacity
  generalize demodulateBbframeSymbols rx demod input noiseVar output capacity = call at h
  cases h with
  | invalid hneg => exact absurd hneg hnoise
  | unheard hdet =>
    refine ⟨rfl, ?_⟩
    unfold SymbolCall.estimate
    dsimp only
    rw [hdet]
    rfl
  | incomplete hdet hfits =>
    refine ⟨rfl, ?_⟩
    unfold SymbolCall.estimate
    dsimp only
    rw [hdet]
    dsimp only
    rw [if_neg fun h => hfits h.1]
    rfl
  | failed hdet hfits => exact ⟨rfl, (estimate_of_fits hdet hfits).symm⟩
  | full hdet hfits => exact ⟨rfl, (estimate_of_fits hdet hfits).symm⟩
  | delivered hdet hfits => exact ⟨rfl, (estimate_of_fits hdet hfits).symm⟩

/-- The user data call leaves the context of the BBFRAME call behind. -/
theorem demodulateSymbols_demod (rx : RxStages R) (demod : Demodulator R) (input : List (Cplx R))
    (noiseVar : R) (userData : List Bool) (capacity : ℕ) :
    (demodulateSymbols rx demod input noiseVar userData capacity).demod
      = (demodulateBbframeSymbols rx demod input noiseVar [] ldpcNormal).demod := by
  unfold demodulateSymbols
  generalize demodulateBbframeSymbols rx demod input noiseVar [] ldpcNormal = call
  dsimp only
  split
  · rfl
  · split
    · rfl
    · split <;> rfl

theorem decodeSymbols_attempted (hnoise : ¬noiseVar < 0) (output : List Bool) (capacity : ℕ)
    (returnBbframe : Bool) :
    Attempted rx demod input
      (decodeSymbols rx demod input noiseVar output capacity returnBbframe).demod := by
  cases returnBbframe with
  | true => exact demodulateBbframeSymbols_attempted hnoise output capacity
  | false =>
    show Attempted rx demod input (demodulateSymbols rx demod input noiseVar output capacity).demod
    rw [demodulateSymbols_demod]
    exact demodulateBbframeSymbols_attempted hnoise [] ldpcNormal

end

omit [LinearOrder R] in
/-- The loop starts afresh exactly when the lock is lost. -/
theorem demodLockUpdate_afc (demod : Demodulator R) (success : Bool) :
    (demodLockUpdate demod success).afc
      = if demod.state ≠ .search ∧ (demodLockUpdate demod success).state = .search then afcInit
        else demod.afc := by
  cases success with
  | true =>
    obtain ⟨state, hstate, hupdate⟩ := demodLockUpdate_success demod
    rw [hupdate, if_neg fun h => hstate h.2]
  | false =>
    unfold demodLockUpdate
    rw [if_neg Bool.false_ne_true]
    dsimp only
    by_cases hkept : demod.state ≠ .track ∨ (demod.consecutiveFailures + 1) % 2 ^ 32 < lossThresh
    · rw [if_pos hkept, if_neg fun h => h.1 h.2]
    · rw [if_neg hkept, if_pos ⟨fun hsearch => hkept (.inl (by rw [hsearch]; decide)), rfl⟩]
      rfl

/-- An operation behind its attempt: the loop is that of the attempt, unless the lock is lost. -/
structure AfcStep (demod : Demodulator R) (estimate : Option R) (after : Demodulator R) : Prop where
  afc : after.afc = if demod.state ≠ .search ∧ after.state = .search then afcInit
    else estimate.elim demod.afc (afcUpdate demod.afc)

theorem AfcStep.same {demod after : Demodulator R} (hstate : after.state = demod.state)
    (hafc : after.afc = demod.afc) : AfcStep demod none after :=
  ⟨by rw [if_neg fun h => h.1 (hstate ▸ h.2), hafc]; rfl⟩

theorem Attempted.step {rx : RxStages R} {demod : Demodulator R} {input : List (Cplx R)}
    {after : Demodulator R} (h : Attempted rx demod input after) :
    AfcStep demod (SymbolCall.estimate ⟨rx, demod, input⟩) after :=
  ⟨by rw [if_neg fun hlost => hlost.1 (h.state ▸ hlost.2)]; exact h.afc⟩

/-- A streaming call: the attempt, then the lock. -/
theorem demodulateStream_afc (rx : RxStages R) (demod : Demodulator R) (input : List (Cplx R))
    (output : List Bool) (capacity : ℕ) (returnBbframe : Bool) :
    AfcStep demod (DemodOp.estimate demod (.stream rx input output capacity returnBbframe))
      (demodulateStream rx demod input output capacity returnBbframe).demod := by
  obtain ⟨streamCap, happ⟩ := streamAppend_eq demod input
  have happState : (streamAppend demod input).state = demod.state := by rw [happ]
  have happAfc : (streamAppend demod input).afc = demod.afc := by rw [happ]
  unfold DemodOp.estimate demodulateStream
  dsimp only [symbolCall]
  by_cases hover : input.length > uintMax - demod.streamBuf.length
  · rw [if_pos hover, if_pos hover]
    exact .same rfl rfl
  rw [if_neg hover, if_neg hover]
  by_cases hwaits : streamWaits (streamAppend demod input) = true
  · rw [if_pos hwaits, if_pos hwaits]
    exact .same happState happAfc
  rw [if_neg hwaits, if_neg hwaits]
  by_cases hlong : (streamAppend demod input).streamBuf.length
      > uintMax - (streamAppend demod input).numTaps
  · rw [if_pos hlong, if_pos hlong]
    exact .same happState happAfc
  rw [if_neg hlong, if_neg hlong, decodeBurst_eq]
  have hattempt : Attempted rx (streamAppend demod input)
      (streamSymbols rx (streamAppend demod input)) (decodeSymbols rx (streamAppend demod input)
        (rx.frontEnd (streamAppend demod input).rolloff (streamAppend demod input).sps
          (decodeBuf (streamAppend demod input))) 0 output capacity returnBbframe).demod :=
    decodeSymbols_attempted (lt_irrefl 0) output capacity returnBbframe
  generalize decodeSymbols rx (streamAppend demod input) _ 0 output capacity returnBbframe = call
    at hattempt
  obtain ⟨hstate, -, -, hafc, -⟩ := expectFrame_fields call.demod
  have hestimate : call.demod.afc = ((some (⟨rx, streamAppend demod input,
      streamSymbols rx (streamAppend demod input)⟩ : SymbolCall R)).bind SymbolCall.estimate).elim
        demod.afc (afcUpdate demod.afc) := by
    rw [hattempt.afc, happAfc]
    rfl
  by_cases hshort : call.ret = errShort
  · rw [if_pos hshort]
    refine ⟨?_⟩
    rw [if_neg fun h => h.1 ((hstate.trans (hattempt.state.trans happState)) ▸ h.2), hafc, hestimate]
  · rw [if_neg hshort]
    refine ⟨?_⟩
    show (demodLockUpdate (expectFrame call.demod).2 (call.ret = 0)).afc
      = if demod.state ≠ .search
          ∧ (demodLockUpdate (expectFrame call.demod).2 (call.ret = 0)).state = .search then afcInit
        else _
    rw [demodLockUpdate_afc, hstate, hattempt.state, happState, hafc, hestimate]

/-- **One operation**: a fresh start when the lock is lost, or an update with its estimate. -/
theorem demodStep_afc (demod : Demodulator R) (op : DemodOp R) :
    (demodStep demod op).afc = if op.losesLock demod then afcInit
      else (op.estimate demod).elim demod.afc (afcUpdate demod.afc) := by
  have h : AfcStep demod (op.estimate demod) (demodStep demod op) := by
    cases op with
    | stream rx input output capacity returnBbframe =>
      exact demodulateStream_afc rx demod input output capacity returnBbframe
    | burst rx input output capacity returnBbframe =>
      show AfcStep demod _ (decodeBurst rx demod input output capacity returnBbframe).demod
      rw [decodeBurst_eq]
      exact (decodeSymbols_attempted (lt_irrefl 0) output capacity returnBbframe).step
    | symbols rx input noiseVar output capacity returnBbframe =>
      show AfcStep demod _ (decodeSymbols rx demod input noiseVar output capacity
        returnBbframe).demod
      by_cases hnoise : noiseVar < 0
      · rw [decodeSymbols_of_invalid hnoise, DemodOp.estimate,
          show symbolCall demod (.symbols rx input noiseVar output capacity returnBbframe) = none
          from if_pos hnoise]
        exact .same rfl rfl
      · rw [DemodOp.estimate, symbolCall_symbols hnoise]
        exact (decodeSymbols_attempted hnoise output capacity returnBbframe).step
    | requestCancel => exact .same rfl rfl
    | setMaxLdpcIterations maxIterations =>
      show AfcStep demod none (demodulatorSetMaxLdpcIterations demod maxIterations).2
      rw [demodulatorSetMaxLdpcIterations]
      split
      · exact .same rfl rfl
      · exact .same rfl rfl
  exact h.afc

/-! ### Whole runs -/

/-- The loop of a run is the loop behind its estimates. -/
theorem demodRun_afcBehind {demod : Demodulator R} {log : List R} (hlog : demod.afc = afcBehind log)
    (ops : List (DemodOp R)) :
    (demodRun demod ops).afc = afcBehind (estimatesSince demod log ops) := by
  induction ops generalizing demod log with
  | nil => exact hlog
  | cons op ops ih =>
    refine @ih (demodStep demod op) _ ?_
    rw [demodStep_afc]
    split
    · rfl
    · rw [afcBehind_append, hlog]

/-- A call makes at most one estimate. -/
theorem length_estimatesSince_le (demod : Demodulator R) (log : List R) (ops : List (DemodOp R)) :
    (estimatesSince demod log ops).length ≤ log.length + ops.length := by
  induction ops generalizing demod log with
  | nil => exact le_rfl
  | cons op ops ih =>
    refine (ih _ _).trans ?_
    rw [List.length_cons]
    split
    · rw [List.length_nil]
      omega
    · rw [List.length_append]
      have hone : (op.estimate demod).toList.length ≤ 1 := by
        cases op.estimate demod <;> simp
      omega

/-- **The loop in any run of a demodulator.**  Its estimate is the sum of the clamped raw estimates
at the steady frames since the lock was last lost, at most one frame a call, and it is locked
exactly when the last of them is steady. -/
theorem demodRun_afc [IsStrictOrderedRing R] {rolloff : R} {sps plScramblingIdx : ℕ}
    {demod : Demodulator R} (hinit : demodulatorInit rolloff sps plScramblingIdx = .ok demod)
    {ops : List (DemodOp R)} (hops : ops.length < 2 ^ 32) :
    let afc := (demodRun demod ops).afc
    let n := (estimatesSince demod [] ops).length
    let raw := fun k => (estimatesSince demod [] ops).getD k 0
    n ≤ ops.length ∧ |afc.freqEst| ≤ ((n - 3 : ℕ) : R) / 5000 ∧
      (afc.locked = true ↔ 0 < n ∧ Steady raw (n - 1)) ∧
      afc.freqEst = ∑ k ∈ range n, if Steady raw k then afcStep (raw k) else 0 := by
  intro afc n raw
  have hstart : demod.afc = afcBehind [] := by
    rw [(demodulatorInit_ok hinit).1]
    rfl
  have hlen : n ≤ ops.length := (length_estimatesSince_le demod [] ops).trans_eq (Nat.zero_add _)
  have htrace := afcAfter_trace raw (hlen.trans_lt hops)
  rw [← afcBehind_eq, ← demodRun_afcBehind hstart ops] at htrace
  have hbound := abs_steadySum_le raw n
  rw [← htrace.freqEst] at hbound
  exact ⟨hlen, hbound, htrace.locked, htrace.freqEst⟩

end

/-! ### A small offset -/

/-- Half a step of offset: four estimates of it, and none of what is left. -/
def smallOffset (k : ℕ) : ℚ := if k < 4 then 1 / 10000 else 0

theorem smallOffset_freqEst (n : ℕ) :
    (afcAfter smallOffset n).freqEst = if n < 4 then 0 else 1 / 10000 := by
  induction n with
  | zero => rfl
  | succ n ih =>
    by_cases hearly : n < 4
    · interval_cases n <;> decide +kernel
    · have hquiet : smallOffset n = 0 := if_neg hearly
      have hstep : afcStep (0 : ℚ) = 0 := by decide +kernel
      have hlate : ¬n + 1 < 4 := by omega
      rw [afcAfter, afcUpdate_eq _ _ _ rfl, ih, hquiet, hstep, if_neg hearly, if_neg hlate, ite_self,
        add_zero]

/-- The loop stands on the offset from the fourth frame on. -/
theorem afc_settles_small :
    |(1 / 10000 : ℚ) - (afcAfter smallOffset 1000).freqEst| ≤ max 0 (|1 / 10000| - 250 / 5000) := by
  have hraw : ∀ k, |smallOffset k - (1 / 10000 - (afcAfter smallOffset k).freqEst)| ≤ 0 := by
    intro k
    rw [smallOffset_freqEst, smallOffset]
    split <;> norm_num
  simpa using (afc_settles (by norm_num) hraw).2 1000 (by norm_num)

/-! ### Four frames of one offset -/

/-- A receiver that finds every header where it belongs and measures the same offset each time. -/
def steadyStages : RxStages ℚ :=
  { scriptedStages (fixedSync (plheaderLen + 2) 9) 0 with afcRaw := fun _ _ _ => 1 / 10000 }

/-- The symbols of a frame. -/
def steadyOp : DemodOp ℚ := .symbols steadyStages (List.replicate 16686 0) 0 [] ldpcNormal true

/-- In `SEARCH` nothing is estimated. -/
theorem estimate_of_search {R : Type*} [Field R] [LinearOrder R] {demod : Demodulator R}
    (hstate : demod.state = .search) (op : DemodOp R) : op.estimate demod = none := by
  rw [DemodOp.estimate, Option.bind_eq_none_iff]
  intro call hcall
  obtain ⟨streamBuf, streamCap, hdemod⟩ := symbolCall_demod hcall
  have hsearch : call.demod.state = .search := by
    rw [hdemod]
    exact hstate
  unfold SymbolCall.estimate
  split
  · rfl
  · rw [if_neg fun h => h.2 hsearch]

/-- **A locked demodulator** measures the offset of the frame, and stays locked. -/
theorem steadyOp_estimate {demod : Demodulator ℚ} {mc : Modcod} {left : ℕ}
    (h : LockedOn demod mc (plheaderLen + 2) left) (hrow : vlsnrGetModcod 9 = some mc)
    (hshort : frameLenOf mc = 16686) : steadyOp.estimate demod = some (1 / 10000) ∧
      LockedOn (demodStep demod steadyOp) mc (plheaderLen + 2) left := by
  have hlen : (List.replicate 16686 (0 : Cplx ℚ)).length = 16686 := List.length_replicate
  have hdet : detected steadyStages demod (List.replicate 16686 0)
      = some (mc, ⟨1, plheaderLen + 2, 9⟩) :=
    detected_scripted h.cancelRequested (by rw [hlen]; decide)
      (headerSearch_fixed h (by decide) 9 0 _ _) (by norm_num) hrow
  have hfits : frameFits mc (⟨1, plheaderLen + 2, 9⟩ : HeaderSync ℚ)
      (List.replicate 16686 (0 : Cplx ℚ)).length := by
    refine frameFits_fixed (vlsnrGetModcod_mem hrow) (by decide) ?_
    rw [hlen, hshort]
  constructor
  · rw [DemodOp.estimate, steadyOp, symbolCall_symbols (lt_irrefl 0), Option.bind_some]
    unfold SymbolCall.estimate
    dsimp only
    rw [hdet]
    exact if_pos ⟨hfits, h.state⟩
  · have houtcome := decodeSymbols_outcome steadyStages demod (List.replicate 16686 0) 0 []
      ldpcNormal true
    show LockedOn (decodeSymbols steadyStages demod (List.replicate 16686 0) 0 [] ldpcNormal
      true).demod mc _ left
    generalize decodeSymbols steadyStages demod (List.replicate 16686 0) 0 [] ldpcNormal true = call
      at houtcome
    have hcancel : cancelAfter steadyStages demod = false := by
      rw [cancelAfter, h.cancelRequested]
      rfl
    have hsync : ∀ {mc' : Modcod} {sync : HeaderSync ℚ},
        detected steadyStages demod (List.replicate 16686 0) = some (mc', sync) →
          sync.offset = plheaderLen + 2 := by
      intro mc' sync hdet'
      obtain rfl : _ = sync := congrArg Prod.snd (Option.some.inj (hdet.symm.trans hdet'))
      rfl
    cases houtcome with
    | invalid hnoise => exact absurd hnoise (lt_irrefl 0)
    | unheard hnone => exact absurd (hdet.symm.trans hnone) (by simp)
    | incomplete hdet' =>
      exact ⟨h.sps, h.numTaps, h.state, rfl, hsync hdet', h.cancelRequested, h.expectedFrameLen,
        h.streamBuf⟩
    | failed hdet' =>
      exact ⟨h.sps, h.numTaps, h.state, rfl, hsync hdet', hcancel, h.expectedFrameLen, h.streamBuf⟩
    | full hdet' =>
      exact ⟨h.sps, h.numTaps, h.state, rfl, hsync hdet', hcancel, h.expectedFrameLen, h.streamBuf⟩
    | delivered hdet' =>
      exact ⟨h.sps, h.numTaps, h.state, rfl, hsync hdet', hcancel, h.expectedFrameLen, h.streamBuf⟩

/-- The estimates of calls on a locked demodulator. -/
theorem estimatesSince_steady {demod : Demodulator ℚ} {mc : Modcod} {left : ℕ}
    (h : LockedOn demod mc (plheaderLen + 2) left) (hrow : vlsnrGetModcod 9 = some mc)
    (hshort : frameLenOf mc = 16686) (log : List ℚ) (n : ℕ) :
    estimatesSince demod log (List.replicate n steadyOp) = log ++ List.replicate n (1 / 10000) := by
  induction n generalizing demod log with
  | zero => exact (List.append_nil log).symm
  | succ n ih =>
    obtain ⟨hestimate, hafter⟩ := steadyOp_estimate h hrow hshort
    rw [List.replicate_succ, estimatesSince, if_neg fun hlost => hafter.state hlost.2, hestimate,
      ih hafter, List.append_assoc, List.replicate_succ]
    rfl

/-- A first frame, which is not measured, and four that agree: the loop is locked and has committed
to the offset once. -/
theorem demodRun_afc_steady :
    let afc := (demodRun (freshDemodulator (1 / 5 : ℚ) 2 0)
      (shortFrameOp :: List.replicate 4 steadyOp)).afc
    afc.locked = true ∧ afc.freqEst = 1 / 10000 := by
  obtain ⟨mc, hrow, hframe, hlock⟩ := shortFrameOp_locks
  rw [demodRun, List.foldl_cons, List.foldl_nil] at hlock
  have hlog : estimatesSince (freshDemodulator (1 / 5 : ℚ) 2 0) []
      (shortFrameOp :: List.replicate 4 steadyOp) = List.replicate 4 (1 / 10000) := by
    rw [estimatesSince, if_neg fun hlost => hlost.1 rfl, estimate_of_search rfl]
    exact estimatesSince_steady hlock hrow hframe [] 4
  have hshort : (shortFrameOp :: List.replicate 4 steadyOp).length < 2 ^ 32 := by
    rw [List.length_cons, List.length_replicate]
    decide
  have h := demodRun_afc demodulatorInit_rat hshort
  rw [hlog] at h
  obtain ⟨-, -, hlocked, hfreq⟩ := h
  exact ⟨hlocked.mpr (by decide +kernel), hfreq.trans (by decide +kernel)⟩

end OpenVlsnr
