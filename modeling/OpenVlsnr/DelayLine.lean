import Mathlib.Algebra.BigOperators.Intervals
import Mathlib.Algebra.BigOperators.Ring.Finset
import Mathlib.Tactic.Ring
import OpenVlsnr.ListGetD

/-!
# Mirrored delay lines

The last `n` samples of a stream in a buffer of `2 * n` slots: a sample is stored twice, `n` slots
apart, so that the `n` newest ones can be read as one block without wrapping around
(`DelayLine.Loaded.read`).  `Holds` is the state between two samples, and one sample leads from
`Holds` over `Loaded` back to `Holds`.

`folded_sum` is a dot product with coefficients that read the same backwards.
-/

namespace DelayLine

open Finset

/-! ### Samples of the past -/

section
variable {α : Type*} [Zero α]

/-- The sample `k` before number `m` of a stream, silence before its start. -/
def lag (fed : List α) (m k : ℕ) : α :=
  if k ≤ m then fed.getD (m - k) 0 else 0

theorem lag_append {fed rest : List α} {m k : ℕ} (hm : m - k < fed.length) :
    lag (fed ++ rest) m k = lag fed m k := by
  unfold lag
  rw [List.getD_append _ _ _ _ hm]

theorem lag_succ (fed : List α) (m k : ℕ) : lag fed (m + 1) (k + 1) = lag fed m k := by
  simp [lag]

@[simp] theorem lag_concat_self (fed : List α) (x : α) : lag (fed ++ [x]) fed.length 0 = x := by
  rw [lag, if_pos (Nat.zero_le _), Nat.sub_zero, OpenVlsnr.getD_concat rfl]

/-! ### The line -/

/-- A sample goes to both halves. -/
def store (n idx : ℕ) (line : List α) (x : α) : List α :=
  (line.set idx x).set (idx + n) x

/-- The next write position. -/
def advance (n idx : ℕ) : ℕ :=
  if n ≤ idx + 1 then 0 else idx + 1

/-- The line between two samples: the `k`-th last sample is `k` slots below `idx + n`. -/
structure Holds (n idx : ℕ) (line fed : List α) : Prop where
  idx_lt : idx < n
  length : 2 * n ≤ line.length
  mirror : ∀ p < n, line.getD (p + n) 0 = line.getD p 0
  window : ∀ k, 1 ≤ k → k ≤ n → line.getD (idx + (n - k)) 0 = lag fed fed.length k

/-- The line behind a store of the last sample, number `m`. -/
structure Loaded (n idx : ℕ) (line fed : List α) (m : ℕ) : Prop where
  idx_lt : idx < n
  length : 2 * n ≤ line.length
  count : fed.length = m + 1
  mirror : ∀ p < n, line.getD (p + n) 0 = line.getD p 0
  window : ∀ k < n, line.getD (idx + (n - k)) 0 = lag fed m k

theorem getD_store {n idx : ℕ} {line : List α} (hidx : idx < n) (hlen : 2 * n ≤ line.length)
    (x : α) (p : ℕ) : (store n idx line x).getD p 0
      = if p = idx ∨ p = idx + n then x else line.getD p 0 := by
  rw [store, OpenVlsnr.getD_set _ _ _ _ (by rw [List.length_set]; omega),
    OpenVlsnr.getD_set _ _ _ _ (by omega)]
  by_cases hmirror : p = idx + n
  · simp [hmirror]
  · simp [hmirror]

omit [Zero α] in
theorem length_store (n idx : ℕ) (line : List α) (x : α) :
    (store n idx line x).length = line.length := by
  simp [store]

/-- A cleared line. -/
theorem Holds.cleared {n : ℕ} (hn : 0 < n) {len : ℕ} (hlen : 2 * n ≤ len) :
    Holds n 0 (List.replicate len (0 : α)) [] where
  idx_lt := hn
  length := by rwa [List.length_replicate]
  mirror p _ := by rw [OpenVlsnr.getD_replicate_self, OpenVlsnr.getD_replicate_self]
  window k hk _ := by
    rw [OpenVlsnr.getD_replicate_self, lag, if_neg (by rw [List.length_nil]; omega)]

/-- **A store**: the new sample is the newest one, the oldest one is gone. -/
theorem Holds.store {n idx : ℕ} {line fed : List α} (h : Holds n idx line fed) (x : α) :
    Loaded n idx (store n idx line x) (fed ++ [x]) fed.length where
  idx_lt := h.idx_lt
  length := by rw [length_store]; exact h.length
  count := by simp
  mirror p hp := by
    have hidx := h.idx_lt
    rw [getD_store h.idx_lt h.length, getD_store h.idx_lt h.length]
    by_cases hpi : p = idx
    · rw [if_pos (Or.inr (by omega)), if_pos (Or.inl hpi)]
    · rw [if_neg (by omega), if_neg (by omega), h.mirror p hp]
  window k hk := by
    have hidx := h.idx_lt
    rw [getD_store h.idx_lt h.length]
    cases k with
    | zero => rw [Nat.sub_zero, if_pos (Or.inr rfl), lag_concat_self]
    | succ k =>
      rw [if_neg (by omega), h.window (k + 1) (Nat.succ_pos k) hk.le]
      by_cases hsilent : k + 1 ≤ fed.length
      · rw [lag_append (by omega)]
      · rw [lag, lag, if_neg hsilent, if_neg hsilent]

/-- **Advancing**: where the position wraps around, the other half holds the same samples. -/
theorem Loaded.advance {n idx m : ℕ} {line fed : List α} (h : Loaded n idx line fed m) :
    Holds n (advance n idx) line fed := by
  have hidx := h.idx_lt
  have hold : ∀ k, 1 ≤ k → k ≤ n → line.getD (idx + 1 + (n - k)) 0 = lag fed fed.length k := by
    intro k hk hkn
    obtain ⟨j, rfl⟩ : ∃ j, k = j + 1 := ⟨k - 1, by omega⟩
    rw [h.count, lag_succ, ← h.window j hkn]
    congr 1
    omega
  unfold DelayLine.advance
  by_cases hwrap : n ≤ idx + 1
  · rw [if_pos hwrap]
    refine ⟨by omega, h.length, h.mirror, fun k hk hkn => ?_⟩
    rw [← hold k hk hkn, Nat.zero_add, ← h.mirror _ (by omega)]
    congr 1
    omega
  · rw [if_neg hwrap]
    exact ⟨by omega, h.length, h.mirror, hold⟩

/-- The block behind the write position, the oldest sample first. -/
theorem Loaded.read {n idx m : ℕ} {line fed : List α} (h : Loaded n idx line fed m) {k : ℕ}
    (hk : k < n) : line.getD (idx + 1 + (n - 1 - k)) 0 = lag fed m k := by
  rw [← h.window k hk]
  congr 1
  omega

end

/-! ### Symmetric dot products -/

/-- **Half of the products suffice** for coefficients that read the same backwards. -/
theorem folded_sum {R : Type*} [CommSemiring R] (m : ℕ) (c d : ℕ → R)
    (hsymm : ∀ k < m, c (2 * m - k) = c k) :
    ∑ k ∈ range m, (d (2 * m - k) + d k) * c k + d m * c m
      = ∑ k ∈ range (2 * m + 1), c k * d (2 * m - k) := by
  have hupper : ∑ k ∈ range m, c (m + 1 + k) * d (2 * m - (m + 1 + k))
      = ∑ k ∈ range m, d k * c k := by
    rw [← sum_range_reflect]
    refine sum_congr rfl fun k hk => ?_
    have hkm := mem_range.mp hk
    rw [show m + 1 + (m - 1 - k) = 2 * m - k by omega, hsymm k hkm,
      show 2 * m - (2 * m - k) = k by omega, mul_comm]
  have hmiddle : 2 * m - m = m := by omega
  rw [show 2 * m + 1 = m + 1 + m by omega, sum_range_add, sum_range_succ, hupper, hmiddle]
  have hlower : ∑ k ∈ range m, (d (2 * m - k) + d k) * c k
      = ∑ k ∈ range m, c k * d (2 * m - k) + ∑ k ∈ range m, d k * c k := by
    rw [← sum_add_distrib]
    exact sum_congr rfl fun k _ => by ring
  rw [hlower]
  ring

/-- A running sum. -/
theorem foldl_add_eq_sum {M : Type*} [AddCommMonoid M] (f : ℕ → M) (n : ℕ) (init : M) :
    (List.range n).foldl (fun s k => s + f k) init = init + ∑ k ∈ range n, f k := by
  induction n with
  | zero => simp
  | succ n ih => simp [List.range_succ, ih, sum_range_succ, add_assoc]

end DelayLine
