import Mathlib.Order.Bounds.Basic
import Mathlib.Tactic.Common

/-!
# Streaks of equal outcomes

A sequence of outcomes, read from a starting point `m` on: `Streak` says that `w` equal ones in a
row are complete at `e`, `FirstStreak` that they are the first, and `CurrentRun` is what a counter
knows that is reset by every other outcome.  Two kinds of streaks that wait for each other cut the
sequence into epochs (`Epoch`): from one start the first streak of `a`, and after it the first
streak of `b`, where the next epoch starts.

* `CurrentRun.streak_iff` - a counter decides whether a streak is complete;
* `Epoch.next_le` - epochs do not overlap, by strong induction on the later start.
-/

namespace OpenVlsnr

variable {α : Type*} {o : ℕ → α} {a b : α} {v w m n c e : ℕ}

/-- `w` outcomes `b` in a row since `m`, the last one just before `e`. -/
def Streak (o : ℕ → α) (b : α) (w m e : ℕ) : Prop :=
  m + w ≤ e ∧ ∀ i, e ≤ i + w → i < e → o i = b

/-- The first streak since `m`. -/
def FirstStreak (o : ℕ → α) (b : α) (w m e : ℕ) : Prop :=
  Streak o b w m e ∧ ∀ e' < e, ¬Streak o b w m e'

theorem FirstStreak.unique {e' : ℕ} (h : FirstStreak o b w m e) (h' : FirstStreak o b w m e') :
    e = e' := by
  rcases lt_trichotomy e e' with hlt | heq | hlt
  · exact absurd h.1 (h'.2 e hlt)
  · exact heq
  · exact absurd h'.1 (h.2 e' hlt)

/-- The last outcome of a streak. -/
theorem Streak.last (h : Streak o b w m e) (hw : 0 < w) : m ≤ e - 1 ∧ e - 1 < e ∧ o (e - 1) = b := by
  obtain ⟨hle, hrun⟩ := h
  exact ⟨by omega, by omega, hrun _ (by omega) (by omega)⟩

/-! ### Counters -/

/-- The last `c` outcomes since `m` are `b`, and the one before them is not. -/
structure CurrentRun (o : ℕ → α) (b : α) (m n c : ℕ) : Prop where
  le : m + c ≤ n
  run : ∀ i, n ≤ i + c → i < n → o i = b
  maximal : m + c < n → o (n - c - 1) ≠ b

theorem CurrentRun.start (o : ℕ → α) (b : α) (n : ℕ) : CurrentRun o b n n 0 :=
  ⟨le_rfl, fun _ hlow hhigh => absurd hhigh (not_lt.mpr hlow), fun h => absurd h (lt_irrefl _)⟩

theorem CurrentRun.extend (h : CurrentRun o b m n c) (ho : o n = b) :
    CurrentRun o b m (n + 1) (c + 1) := by
  obtain ⟨hle, hrun, hmax⟩ := h
  refine ⟨by omega, fun i hlow hhigh => ?_, fun hlt => ?_⟩
  · obtain rfl | hne := eq_or_ne i n
    · exact ho
    · exact hrun i (by omega) (by omega)
  · rw [Nat.add_sub_add_right]
    exact hmax (by omega)

theorem CurrentRun.broken (hm : m ≤ n) (ho : o n ≠ b) : CurrentRun o b m (n + 1) 0 :=
  ⟨by omega, fun _ hlow hhigh => absurd hhigh (not_lt.mpr hlow), fun _ => ho⟩

/-- **A counter decides whether a streak is complete.** -/
theorem CurrentRun.streak_iff (h : CurrentRun o b m n c) : Streak o b w m n ↔ w ≤ c := by
  obtain ⟨hle, hrun, hmax⟩ := h
  constructor
  · rintro ⟨hfits, hstreak⟩
    by_contra hlt
    exact hmax (by omega) (hstreak _ (by omega) (by omega))
  · intro hw
    exact ⟨by omega, fun i hlow hhigh => hrun i (by omega) hhigh⟩

/-- Streaks that are not complete one outcome later. -/
theorem not_streak_succ (hno : ∀ e ≤ n, ¬Streak o b w m e) (h : CurrentRun o b m (n + 1) c)
    (hc : c < w) : ∀ e ≤ n + 1, ¬Streak o b w m e := by
  intro e he
  obtain rfl | hlt := eq_or_lt_of_le he
  · rw [h.streak_iff]
    omega
  · exact hno e (by omega)

/-- A streak that completes now is the first. -/
theorem FirstStreak.of_now (hno : ∀ e ≤ n, ¬Streak o b w m e) (h : CurrentRun o b m (n + 1) c)
    (hc : w ≤ c) : FirstStreak o b w m (n + 1) :=
  ⟨h.streak_iff.mpr hc, fun e he => hno e (by omega)⟩

/-! ### Epochs -/

/-- The starts of epochs: after the first streak of `a` and, behind that, the first one of `b`. -/
inductive Epoch (o : ℕ → α) (a b : α) (v w : ℕ) : ℕ → Prop
  | start : Epoch o a b v w 0
  | next {m e n : ℕ} (hm : Epoch o a b v w m) (ha : FirstStreak o a v m e)
      (hb : FirstStreak o b w e n) : Epoch o a b v w n

/-- **Epochs do not overlap**: between two starts there is a whole epoch. -/
theorem Epoch.next_le (hv : 0 < v) {m' : ℕ} (hm : Epoch o a b v w m) (hm' : Epoch o a b v w m')
    (hlt : m < m') :
    ∃ e n, FirstStreak o a v m e ∧ FirstStreak o b w e n ∧ n ≤ m' := by
  induction m' using Nat.strong_induction_on generalizing m with
  | _ m' ih =>
    cases hm' with
    | start => exact absurd hlt (Nat.not_lt_zero m)
    | @next m₁ e₁ _ hm₁ ha hb =>
      have hle₁ := ha.1.1
      have hle₂ := hb.1.1
      rcases lt_trichotomy m m₁ with hbefore | rfl | hafter
      · obtain ⟨e, n, hea, heb, hle⟩ := ih m₁ (by omega) hm hm₁ hbefore
        exact ⟨e, n, hea, heb, by omega⟩
      · exact ⟨e₁, m', ha, hb, le_rfl⟩
      · -- the epoch that ends at `m'` would be over by `m`
        obtain ⟨e, n, hea, heb, hle⟩ := ih m hlt hm₁ hm hafter
        obtain rfl := hea.unique ha
        obtain rfl := heb.unique hb
        exact absurd hle (not_le.mpr hlt)

/-- The last start of an epoch up to `n`. -/
abbrev LastEpoch (o : ℕ → α) (a b : α) (v w n m : ℕ) : Prop :=
  IsGreatest {m | Epoch o a b v w m ∧ m ≤ n} m

/-- A start is the last one as long as its own epoch has not ended. -/
theorem LastEpoch.of_open (hv : 0 < v) (hm : Epoch o a b v w m) (hle : m ≤ n)
    (hopen : ∀ e n', FirstStreak o a v m e → FirstStreak o b w e n' → n < n') :
    LastEpoch o a b v w n m := by
  refine ⟨⟨hm, hle⟩, fun m' hm' => ?_⟩
  by_contra hlt
  obtain ⟨e, n', ha, hb, hend⟩ := hm.next_le hv hm'.1 (not_le.mp hlt)
  have := hopen e n' ha hb
  have := hm'.2
  omega

end OpenVlsnr
