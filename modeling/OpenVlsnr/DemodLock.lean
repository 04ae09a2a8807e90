import OpenVlsnr.Demodulator
import OpenVlsnr.Streaks

/-!
# The lock state over a run (`demodulator_top.c`)

`dvbs2x_demod_lock_update` counts successes and failures in two counters that three states share.
The history of outcomes alone says where `SEARCH` and `TRACK` are entered: from a search entry the
first three successes in a row enter `TRACK`, and the first three failures in a row after that enter
`SEARCH` again (`SearchEntry`, `TrackEntry`).  `LockPhase` is what the state and the counters are in
between.

* `lockPhase_step` - one outcome;
* `demodLock_characterised` - the state after any outcomes, and what the loss of lock clears.
-/

namespace OpenVlsnr

/-! ### The rules -/

/-- The times at which a search starts: the start, and every loss of lock. -/
abbrev SearchEntry (outcomes : ℕ → Bool) : ℕ → Prop :=
  Epoch outcomes true false lockThresh lossThresh

/-- The times at which lock is declared. -/
def TrackEntry (outcomes : ℕ → Bool) (e : ℕ) : Prop :=
  ∃ m, SearchEntry outcomes m ∧ FirstStreak outcomes true lockThresh m e

/-- `m` is the last search entry up to `n`. -/
abbrev LastSearch (outcomes : ℕ → Bool) (n m : ℕ) : Prop :=
  LastEpoch outcomes true false lockThresh lossThresh n m

/-- No success since `m`. -/
def Quiet (outcomes : ℕ → Bool) (m n : ℕ) : Prop := ∀ i, m ≤ i → i < n → outcomes i = false

/-- Three successes in a row since `m`, and no three failures in a row since. -/
def Locked (outcomes : ℕ → Bool) (m n : ℕ) : Prop :=
  ∃ e ≤ n, FirstStreak outcomes true lockThresh m e ∧
    ∀ e' ≤ n, ¬Streak outcomes false lossThresh e e'

/-- State and counters after `n` outcomes, the last search having started at `m`. -/
inductive LockPhase (outcomes : ℕ → Bool) (m n : ℕ) : DemodState → ℕ → ℕ → Prop
  | search {failures : ℕ} (hquiet : Quiet outcomes m n) :
      LockPhase outcomes m n .search 0 failures
  | acquire {successes failures : ℕ} (hheard : ¬Quiet outcomes m n)
      (hrun : CurrentRun outcomes true m n successes) (hlow : successes < lockThresh)
      (hno : ∀ e ≤ n, ¬Streak outcomes true lockThresh m e) :
      LockPhase outcomes m n .acquire successes failures
  | track {successes failures e : ℕ} (he : e ≤ n)
      (hlock : FirstStreak outcomes true lockThresh m e)
      (hrun : CurrentRun outcomes false e n failures) (hlow : failures < lossThresh)
      (hno : ∀ e' ≤ n, ¬Streak outcomes false lossThresh e e') :
      LockPhase outcomes m n .track successes failures

/-! ### What a phase says -/

section Phase
variable {outcomes : ℕ → Bool} {m n successes failures : ℕ} {state : DemodState}

/-- A streak is heard. -/
theorem not_quiet_of_streak {e : ℕ} (he : e ≤ n) (h : Streak outcomes true lockThresh m e) :
    ¬Quiet outcomes m n := by
  intro hquiet
  obtain ⟨hlow, hhigh, htrue⟩ := h.last (by decide)
  rw [hquiet _ hlow (by omega)] at htrue
  exact Bool.false_ne_true htrue

theorem LockPhase.search_iff (h : LockPhase outcomes m n state successes failures) :
    state = .search ↔ Quiet outcomes m n := by
  cases h with
  | search hquiet => exact iff_of_true rfl hquiet
  | acquire hheard hrun hlow hno => exact iff_of_false (by decide) hheard
  | track he hlock hrun hlow hno => exact iff_of_false (by decide) (not_quiet_of_streak he hlock.1)

theorem LockPhase.track_iff (h : LockPhase outcomes m n state successes failures) :
    state = .track ↔ Locked outcomes m n := by
  cases h with
  | search hquiet =>
    refine iff_of_false (by decide) ?_
    rintro ⟨e, he, hlock, -⟩
    exact not_quiet_of_streak he hlock.1 hquiet
  | acquire hheard hrun hlow hno =>
    refine iff_of_false (by decide) ?_
    rintro ⟨e, he, hlock, -⟩
    exact hno e he hlock.1
  | @track _ _ e he hlock hrun hlow hno => exact iff_of_true rfl ⟨e, he, hlock, hno⟩

/-- The search that a phase counts from is the last one. -/
theorem LockPhase.lastSearch (h : LockPhase outcomes m n state successes failures)
    (hm : SearchEntry outcomes m) (hle : m ≤ n) : LastSearch outcomes n m := by
  refine .of_open (by decide) hm hle fun e n' hlock hloss => not_le.mp fun hend => ?_
  have hlater := hloss.1.1
  cases h with
  | search hquiet => exact not_quiet_of_streak (by omega) hlock.1 hquiet
  | acquire hheard hrun hlow hno => exact hno e (by omega) hlock.1
  | track he hlock' hrun hlow hno =>
    obtain rfl := hlock.unique hlock'
    exact hno n' hend hloss.1

end Phase

/-! ### One outcome -/

section
variable {R : Type*} [Field R]

/-- What a success does to the state and the counters. -/
theorem demodLockUpdate_true (demod : Demodulator R) :
    let count := (demod.consecutiveSuccesses + 1) % 2 ^ 32
    (demodLockUpdate demod true).state
        = (if demod.state = .track ∨ lockThresh ≤ count then .track else .acquire) ∧
      (demodLockUpdate demod true).consecutiveSuccesses = count ∧
      (demodLockUpdate demod true).consecutiveFailures = 0 := by
  intro count
  simp only [demodLockUpdate, if_true, ge_iff_le]
  rw [show (demod.consecutiveSuccesses + 1) % 2 ^ 32 = count from rfl]
  cases hstate : demod.state with
  | track => simp
  | search =>
    simp only [if_true, true_and, reduceCtorEq, false_or]
    split_ifs <;> exact ⟨rfl, rfl, rfl⟩
  | acquire =>
    simp only [if_false, true_and, reduceCtorEq, false_or]
    split_ifs <;> exact ⟨rfl, rfl, rfl⟩

/-- A failure counts, and loses the lock if it is the third in a row in `TRACK`. -/
theorem demodLockUpdate_false (demod : Demodulator R) :
    let counted := { demod with
      consecutiveSuccesses := 0
      consecutiveFailures := (demod.consecutiveFailures + 1) % 2 ^ 32 }
    demodLockUpdate demod false
      = if demod.state = .track ∧ lossThresh ≤ counted.consecutiveFailures then counted.loseLock
        else counted := by
  intro counted
  unfold demodLockUpdate
  rw [if_neg Bool.false_ne_true]
  by_cases hlost : demod.state = .track ∧ lossThresh ≤ counted.consecutiveFailures
  · rw [if_pos hlost]
    exact if_neg fun h => h.elim (absurd hlost.1) (not_lt.mpr hlost.2)
  · rw [if_neg hlost]
    refine if_pos (or_iff_not_imp_left.mpr fun htrack => not_le.mp fun hcount => hlost ⟨?_, hcount⟩)
    exact not_not.mp htrack

section Step
variable {outcomes : ℕ → Bool} {m n : ℕ} {demod : Demodulator R}

/-- The phase of a demodulator. -/
abbrev InPhase (outcomes : ℕ → Bool) (m n : ℕ) (demod : Demodulator R) : Prop :=
  LockPhase outcomes m n demod.state demod.consecutiveSuccesses demod.consecutiveFailures

/-- A success that is not yet the third in a row, and the third. -/
theorem lockPhase_count {successes : ℕ} (hrun : CurrentRun outcomes true m (n + 1) successes)
    (hle : m ≤ n) (htrue : outcomes n = true)
    (hno : ∀ e ≤ n, ¬Streak outcomes true lockThresh m e) :
    LockPhase outcomes m (n + 1) (if lockThresh ≤ successes then .track else .acquire)
      successes 0 := by
  by_cases hcount : lockThresh ≤ successes
  · rw [if_pos hcount]
    exact .track le_rfl (.of_now hno hrun hcount) (.start _ _ _) (by decide)
      fun e' he' h => absurd h.1 (by simp only [lossThresh]; omega)
  · rw [if_neg hcount]
    refine .acquire (fun hquiet => ?_) hrun (not_le.mp hcount)
      (not_streak_succ hno hrun (not_le.mp hcount))
    rw [hquiet n hle (Nat.lt_succ_self n)] at htrue
    exact Bool.false_ne_true htrue

theorem lockPhase_success (hle : m ≤ n) (h : InPhase outcomes m n demod)
    (htrue : outcomes n = true) :
    InPhase outcomes m (n + 1) (demodLockUpdate demod true) := by
  obtain ⟨hstate, hsuccesses, hfailures⟩ := demodLockUpdate_true demod
  rw [InPhase, hstate, hsuccesses, hfailures]
  rw [InPhase] at h
  generalize demod.state = state at h ⊢
  generalize demod.consecutiveSuccesses = successes at h ⊢
  generalize demod.consecutiveFailures = failures at h
  cases h with
  | search hquiet =>
    have hrun : CurrentRun outcomes true m n 0 := by
      refine ⟨hle, fun i hlow hhigh => absurd hhigh (not_lt.mpr hlow), fun hlt => ?_⟩
      rw [hquiet _ (by omega) (by omega)]
      exact Bool.false_ne_true
    have hno : ∀ e ≤ n, ¬Streak outcomes true lockThresh m e := fun e he hstreak =>
      not_quiet_of_streak he hstreak hquiet
    exact lockPhase_count (hrun.extend htrue) hle htrue hno
  | acquire hheard hrun hlow hno =>
    have hsmall : (successes + 1) % 2 ^ 32 = successes + 1 :=
      Nat.mod_eq_of_lt (by simp only [lockThresh] at hlow; omega)
    rw [hsmall]
    have := lockPhase_count (hrun.extend htrue) hle htrue hno
    simpa using this
  | track he hlock hrun hlow hno =>
    rw [if_pos (Or.inl rfl)]
    have hbroken : CurrentRun outcomes false _ (n + 1) 0 :=
      .broken he (by rw [htrue]; decide)
    exact .track (by omega) hlock hbroken (by decide) (not_streak_succ hno hbroken (by decide))

theorem lockPhase_failure (hm : SearchEntry outcomes m) (hle : m ≤ n)
    (h : InPhase outcomes m n demod) (hfalse : outcomes n = false) :
    ∃ m', SearchEntry outcomes m' ∧ m' ≤ n + 1 ∧
      InPhase outcomes m' (n + 1) (demodLockUpdate demod false) := by
  rw [demodLockUpdate_false]
  rw [InPhase] at h
  have hbroken : CurrentRun outcomes true m (n + 1) 0 := .broken hle (by rw [hfalse]; decide)
  have hwrap : ∀ failures < lossThresh, (failures + 1) % 2 ^ 32 = failures + 1 :=
    fun failures hlow => Nat.mod_eq_of_lt (by simp only [lossThresh] at hlow; omega)
  by_cases hlost : demod.state = .track ∧
      lossThresh ≤ (demod.consecutiveFailures + 1) % 2 ^ 32
  · -- the third failure in a row starts the next search
    rw [if_pos hlost]
    obtain ⟨htrack, hcount⟩ := hlost
    rw [htrack] at h
    cases h with
    | track he hlock hrun hlow hno =>
      rw [hwrap _ hlow] at hcount
      exact ⟨n + 1, hm.next hlock (.of_now hno (hrun.extend hfalse) hcount), le_rfl,
        .search fun i hlow hhigh => absurd hhigh (not_lt.mpr hlow)⟩
  · rw [if_neg hlost]
    refine ⟨m, hm, by omega, ?_⟩
    simp only [InPhase]
    generalize demod.state = state at h hlost ⊢
    generalize demod.consecutiveSuccesses = successes at h
    generalize demod.consecutiveFailures = failures at h hlost ⊢
    cases h with
    | search hquiet =>
      refine .search fun i hlow hhigh => ?_
      obtain rfl | hne := eq_or_ne i n
      · exact hfalse
      · exact hquiet i hlow (by omega)
    | acquire hheard hrun hlow hno =>
      exact .acquire (fun hquiet => hheard fun i hi hlt => hquiet i hi (by omega)) hbroken
        (by decide) (not_streak_succ hno hbroken (by decide))
    | track he hlock hrun hlow hno =>
      have hcount : failures + 1 < lossThresh := by
        rw [hwrap _ hlow] at hlost
        exact not_le.mp fun hcount => hlost ⟨rfl, hcount⟩
      rw [hwrap _ hlow]
      exact .track (by omega) hlock (hrun.extend hfalse) hcount
        (not_streak_succ hno (hrun.extend hfalse) hcount)

/-- **One outcome** keeps the phase, or the third failure in a row starts the next search. -/
theorem lockPhase_step (hm : SearchEntry outcomes m) (hle : m ≤ n)
    (h : InPhase outcomes m n demod) :
    ∃ m', SearchEntry outcomes m' ∧ m' ≤ n + 1 ∧
      InPhase outcomes m' (n + 1) (demodLockUpdate demod (outcomes n)) := by
  cases hn : outcomes n with
  | true => exact ⟨m, hm, by omega, lockPhase_success hle h hn⟩
  | false => exact lockPhase_failure hm hle h hn

end Step

/-! ### A run -/

/-- The demodulator after the first `n` outcomes. -/
def lockRun (demod : Demodulator R) (outcomes : ℕ → Bool) : ℕ → Demodulator R
  | 0 => demod
  | n + 1 => demodLockUpdate (lockRun demod outcomes n) (outcomes n)

section Run
variable {start : Demodulator R} (hstate : start.state = .search)
  (hsuccesses : start.consecutiveSuccesses = 0) (outcomes : ℕ → Bool)
include hstate hsuccesses

/-- **Any number of outcomes**, by induction. -/
theorem lockRun_phase (n : ℕ) :
    ∃ m, LastSearch outcomes n m ∧ InPhase outcomes m n (lockRun start outcomes n) := by
  have hrun : ∃ m, SearchEntry outcomes m ∧ m ≤ n ∧
      InPhase outcomes m n (lockRun start outcomes n) := by
    induction n with
    | zero =>
      refine ⟨0, .start, le_rfl, ?_⟩
      simp only [InPhase, lockRun, hstate, hsuccesses]
      exact .search fun i _ hlt => absurd hlt (Nat.not_lt_zero i)
    | succ n ih =>
      obtain ⟨m, hm, hle, hphase⟩ := ih
      exact lockPhase_step hm hle hphase
  obtain ⟨m, hm, hle, hphase⟩ := hrun
  exact ⟨m, hphase.lastSearch hm hle, hphase⟩

/-- The phase counts from the last search entry, whichever way that is known. -/
theorem lockRun_phase_of {n m : ℕ} (hm : LastSearch outcomes n m) :
    InPhase outcomes m n (lockRun start outcomes n) := by
  obtain ⟨m', hm', hphase⟩ := lockRun_phase hstate hsuccesses outcomes n
  obtain rfl := hm.unique hm'
  exact hphase

/-- The state machine enters `SEARCH` where the rules say. -/
theorem searchEntry_iff (k : ℕ) :
    SearchEntry outcomes k ↔ (lockRun start outcomes k).state = .search ∧
      (k = 0 ∨ (lockRun start outcomes (k - 1)).state ≠ .search) := by
  constructor
  · intro hk
    have hlast : LastSearch outcomes k k := ⟨⟨hk, le_rfl⟩, fun m hm => hm.2⟩
    have hphase := lockRun_phase_of hstate hsuccesses outcomes hlast
    refine ⟨hphase.search_iff.mpr fun i hlow hhigh => absurd hhigh (not_lt.mpr hlow), ?_⟩
    cases k with
    | zero => exact Or.inl rfl
    | succ k =>
      refine Or.inr fun hsearch => ?_
      obtain ⟨m, hm, hphase'⟩ := lockRun_phase hstate hsuccesses outcomes k
      -- the search before could only have ended with a streak of successes
      obtain ⟨e, n, hlock, hloss, hle⟩ := Epoch.next_le (by decide) hm.1.1 hk
        (Nat.lt_succ_of_le hm.1.2)
      have hlater : e + lossThresh ≤ n := hloss.1.1
      simp only [lossThresh] at hlater
      exact not_quiet_of_streak (by omega) hlock.1 (hphase'.search_iff.mp hsearch)
  · rintro ⟨hsearch, rfl | hbefore⟩
    · exact .start
    · obtain ⟨m, hm, hphase⟩ := lockRun_phase hstate hsuccesses outcomes k
      obtain heq | hlt := eq_or_lt_of_le hm.1.2
      · rw [← heq]
        exact hm.1.1
      · have hlast : LastSearch outcomes (k - 1) m :=
          ⟨⟨hm.1.1, by omega⟩, fun m' hm' => hm.2 ⟨hm'.1, hm'.2.trans (Nat.sub_le k 1)⟩⟩
        have hquiet := hphase.search_iff.mp hsearch
        refine absurd ?_ hbefore
        exact (lockRun_phase_of hstate hsuccesses outcomes hlast).search_iff.mpr
          fun i hlow hhigh => hquiet i hlow (by omega)

/-- The state machine enters `TRACK` where the rules say. -/
theorem trackEntry_iff (k : ℕ) :
    TrackEntry outcomes k ↔ (lockRun start outcomes k).state = .track ∧
      (lockRun start outcomes (k - 1)).state ≠ .track := by
  constructor
  · rintro ⟨m, hm, hlock⟩
    have hfits : m + lockThresh ≤ k := hlock.1.1
    simp only [lockThresh] at hfits
    have hopen : ∀ n ≤ k, m ≤ n → LastSearch outcomes n m := fun n hn hle =>
      .of_open (by decide) hm hle fun e n' hlock' hloss => by
        obtain rfl := hlock.unique hlock'
        have hlater : k + lossThresh ≤ n' := hloss.1.1
        simp only [lossThresh] at hlater
        omega
    have hnow := lockRun_phase_of hstate hsuccesses outcomes (hopen k le_rfl (by omega))
    have hbefore := lockRun_phase_of hstate hsuccesses outcomes
      (hopen (k - 1) (by omega) (by omega))
    constructor
    · refine hnow.track_iff.mpr ⟨k, le_rfl, hlock, fun e' he' hstreak => ?_⟩
      have hlater : k + lossThresh ≤ e' := hstreak.1
      simp only [lossThresh] at hlater
      omega
    · intro htrack
      obtain ⟨e, he, hlock', -⟩ := hbefore.track_iff.mp htrack
      obtain rfl := hlock.unique hlock'
      omega
  · rintro ⟨htrack, hbefore⟩
    obtain ⟨m, hm, hphase⟩ := lockRun_phase hstate hsuccesses outcomes k
    obtain ⟨e, he, hlock, hno⟩ := hphase.track_iff.mp htrack
    obtain rfl | hlt := eq_or_lt_of_le he
    · exact ⟨m, hm.1.1, hlock⟩
    · -- lock declared earlier would still have been held one outcome ago
      have hfits : m + lockThresh ≤ e := hlock.1.1
      have hlast : LastSearch outcomes (k - 1) m :=
        ⟨⟨hm.1.1, by omega⟩, fun m' hm' => hm.2 ⟨hm'.1, hm'.2.trans (Nat.sub_le k 1)⟩⟩
      refine absurd ?_ hbefore
      exact (lockRun_phase_of hstate hsuccesses outcomes hlast).track_iff.mpr
        ⟨e, by omega, hlock, fun e' he' => hno e' (by omega)⟩

end Run

/-- The step that clears: from `TRACK` to `SEARCH`, and no other. -/
theorem demodLockUpdate_clears (demod : Demodulator R) (success : Bool) :
    if demod.state = .track ∧ (demodLockUpdate demod success).state = .search then
      (demodLockUpdate demod success).expectedFrameLen = 0 ∧
        (demodLockUpdate demod success).haveWhPrediction = false ∧
        (demodLockUpdate demod success).afc = afcInit
    else
      (demodLockUpdate demod success).expectedFrameLen = demod.expectedFrameLen ∧
        (demodLockUpdate demod success).haveWhPrediction = demod.haveWhPrediction ∧
        (demodLockUpdate demod success).afc = demod.afc := by
  cases success with
  | true =>
    obtain ⟨state, hne, hupdate⟩ := demodLockUpdate_success demod
    rw [hupdate, if_neg fun h => hne h.2]
    exact ⟨rfl, rfl, rfl⟩
  | false =>
    rw [demodLockUpdate_false]
    by_cases hlost : demod.state = .track ∧
        lossThresh ≤ (demod.consecutiveFailures + 1) % 2 ^ 32
    · rw [if_pos hlost, if_pos ⟨hlost.1, rfl⟩]
      exact ⟨rfl, rfl, rfl⟩
    · have hkept : ¬(demod.state = .track ∧ demod.state = .search) := by
        rintro ⟨htrack, hsearch⟩
        cases htrack.symm.trans hsearch
      rw [if_neg hlost, if_neg hkept]
      exact ⟨rfl, rfl, rfl⟩

/-- **The lock state follows the rules on every run.**  After the first `n` of any outcomes from a
fresh demodulator, with the last search entry at `m`: the state is `TRACK` exactly if three
successes in a row have occurred since `m` and no three failures in a row since the first of these,
`SEARCH` exactly if no success has occurred since `m`, and `ACQUIRE` otherwise.  Search entries and
the declarations of lock are the steps on which the state becomes `SEARCH` and `TRACK`.  A step from
`TRACK` to `SEARCH` clears the frame length, the header prediction and the AFC; no other step
touches them. -/
theorem demodLock_characterised [LinearOrder R] {rolloff : R} {sps plScramblingIdx : ℕ}
    {start : Demodulator R} (hinit : demodulatorInit rolloff sps plScramblingIdx = .ok start)
    (outcomes : ℕ → Bool) :
    let state := fun n => (lockRun start outcomes n).state
    (∀ n, ∃ m, LastSearch outcomes n m ∧
        (state n = .track ↔ Locked outcomes m n) ∧ (state n = .search ↔ Quiet outcomes m n) ∧
          (state n = .acquire ↔ ¬Locked outcomes m n ∧ ¬Quiet outcomes m n)) ∧
      (∀ n, SearchEntry outcomes n ↔
        state n = .search ∧ (n = 0 ∨ state (n - 1) ≠ .search)) ∧
      (∀ n, TrackEntry outcomes n ↔ state n = .track ∧ state (n - 1) ≠ .track) ∧
      ∀ (demod : Demodulator R) (success : Bool),
        let next := demodLockUpdate demod success
        if demod.state = .track ∧ next.state = .search then
          next.expectedFrameLen = 0 ∧ next.haveWhPrediction = false ∧ next.afc = afcInit
        else next.expectedFrameLen = demod.expectedFrameLen ∧
          next.haveWhPrediction = demod.haveWhPrediction ∧ next.afc = demod.afc := by
  intro state
  obtain ⟨rfl, -⟩ := demodulatorInit_ok hinit
  refine ⟨fun n => ?_, searchEntry_iff rfl rfl outcomes, trackEntry_iff rfl rfl outcomes,
    demodLockUpdate_clears⟩
  obtain ⟨m, hm, hphase⟩ : ∃ m, LastSearch outcomes n m ∧
      InPhase outcomes m n (lockRun (freshDemodulator rolloff sps plScramblingIdx) outcomes n) :=
    lockRun_phase rfl rfl outcomes n
  refine ⟨m, hm, hphase.track_iff, hphase.search_iff, ?_⟩
  rw [← hphase.track_iff, ← hphase.search_iff]
  dsimp only [state]
  generalize (lockRun (freshDemodulator rolloff sps plScramblingIdx) outcomes n).state = s
  cases s <;> decide

end

/-- Three successes, a failure, a success and three failures: lock is lost with the last one. -/
theorem demodLock_characterised_loss :
    let outcomes := fun i => [true, true, true, false, true].getD i false
    SearchEntry outcomes 8 ∧ ∃ m, LastSearch outcomes 8 m ∧ Quiet outcomes m 8 := by
  intro outcomes
  set start := freshDemodulator (1 / 5 : ℚ) 2 0 with hstart
  obtain ⟨hphase, hsearch, -⟩ := demodLock_characterised demodulatorInit_rat outcomes
  have hstates : (lockRun start outcomes 8).state = .search ∧
      (lockRun start outcomes 7).state = .track := by
    constructor <;>
      simp [lockRun, demodLockUpdate, Demodulator.loseLock, outcomes, hstart, freshDemodulator,
        lockThresh, lossThresh]
  obtain ⟨m, hm, -, hquiet, -⟩ := hphase 8
  have hlocked : (lockRun start outcomes 7).state ≠ .search := by
    rw [hstates.2]
    decide
  exact ⟨(hsearch 8).mpr ⟨hstates.1, Or.inr hlocked⟩, m, hm, hquiet.mp hstates.1⟩

end OpenVlsnr
