import Mathlib.Algebra.BigOperators.Intervals
import Mathlib.Tactic.Common

/-!
# Combining all messages but one

A check node sends to each neighbour the combination of what all the others told it.  The
forward and backward running combinations give every one of these in linear time.  The
combining operation need not be associative or commutative; what it becomes under a map into a
commutative monoid is the product over all positions but one (`map_extrinsic`).  The map has to be
multiplicative only on the values that such combinations come to.
-/

namespace Extrinsic

open Finset

variable {R : Type*}

/-- The running combination of the messages `0, ..., d`. -/
def forward (op : R → R → R) (v : ℕ → R) : ℕ → R
  | 0 => v 0
  | d + 1 => op (forward op v d) (v (d + 1))

/-- The running combination of the messages `last, last - 1, ..., last - e`. -/
def backward (op : R → R → R) (v : ℕ → R) (last : ℕ) : ℕ → R
  | 0 => v last
  | e + 1 => op (backward op v last e) (v (last - (e + 1)))

/-- The message to position `d` of `degree`: the forward combination up to `d - 1` with the
backward one down to `d + 1`.  A single neighbour gets the neutral message. -/
def extrinsic (op : R → R → R) (neutral : R) (v : ℕ → R) (degree d : ℕ) : R :=
  if degree = 1 then neutral
  else if d = 0 then backward op v (degree - 1) (degree - 2)
  else if d = degree - 1 then forward op v (degree - 2)
  else op (forward op v (d - 1)) (backward op v (degree - 1) (degree - 1 - (d + 1)))

/-! ### Depth

An operation may be a homomorphism only on values that have not been through it too often.  `P n`
says that a value is good at depth `n`; what is combined of values of depth `n` has depth `n + 1`,
up to depth `N`. -/

section
variable {M : Type*} [CommMonoid M] {op : R → R → R} {f : R → M} {P : ℕ → R → Prop} {N : ℕ}
  (hmono : ∀ n a, P n a → P (n + 1) a)
  (hop : ∀ n < N, ∀ a b, P n a → P n b → f (op a b) = f a * f b ∧ P (n + 1) (op a b))
include hmono

omit [CommMonoid M] in
theorem deepen {n k : ℕ} (hnk : n ≤ k) {a : R} (ha : P n a) : P k a := by
  induction k, hnk using Nat.le_induction with
  | base => exact ha
  | succ k _ ih => exact hmono k a ih

include hop

/-- Combining a value of depth `n + d` with one of depth `n`. -/
theorem map_combine {n d : ℕ} (hN : n + d < N) {a b : R} (ha : P (n + d) a) (hb : P n b) :
    f (op a b) = f a * f b ∧ P (n + (d + 1)) (op a b) :=
  hop (n + d) hN a b ha (deepen hmono (Nat.le_add_right n d) hb)

theorem map_forward {n : ℕ} (v : ℕ → R) {d : ℕ} (hN : n + d ≤ N) (hv : ∀ i ≤ d, P n (v i)) :
    f (forward op v d) = ∏ i ∈ range (d + 1), f (v i) ∧ P (n + d) (forward op v d) := by
  induction d with
  | zero => exact ⟨by simp [forward], hv 0 le_rfl⟩
  | succ d ih =>
    obtain ⟨hprod, hdeep⟩ := ih (by omega) fun i hi => hv i (by omega)
    obtain ⟨hmul, hnext⟩ := map_combine hmono hop (by omega) hdeep (hv (d + 1) le_rfl)
    exact ⟨by rw [forward, hmul, hprod, prod_range_succ _ (d + 1)], hnext⟩

theorem map_backward {n : ℕ} (v : ℕ → R) (last e : ℕ) (he : e ≤ last) (hN : n + e ≤ N)
    (hv : ∀ i, last - e ≤ i → i ≤ last → P n (v i)) :
    f (backward op v last e) = ∏ i ∈ Ico (last - e) (last + 1), f (v i) ∧
      P (n + e) (backward op v last e) := by
  induction e with
  | zero => exact ⟨by simp [backward], hv last (by omega) le_rfl⟩
  | succ e ih =>
    have hstart : last - e = last - (e + 1) + 1 := by omega
    obtain ⟨hprod, hdeep⟩ := ih (by omega) (by omega) fun i hlow hhigh => hv i (by omega) hhigh
    obtain ⟨hmul, hnext⟩ := map_combine hmono hop (by omega) hdeep
      (hv (last - (e + 1)) le_rfl (by omega))
    refine ⟨?_, hnext⟩
    rw [backward, hmul, hprod, hstart, mul_comm,
      ← prod_eq_prod_Ico_succ_bot (by omega) fun i => f (v i)]

/-- **An extrinsic message is the product over the other positions**, and as many operations
deeper than they are as there are positions but two. -/
theorem map_extrinsic (neutral : R) {n : ℕ} (v : ℕ → R) {degree d : ℕ} (hdegree : 2 ≤ degree)
    (hd : d < degree) (hN : n + (degree - 2) ≤ N) (hv : ∀ i < degree, i ≠ d → P n (v i)) :
    f (extrinsic op neutral v degree d) = ∏ i ∈ (range degree).erase d, f (v i) ∧
      P (n + (degree - 2)) (extrinsic op neutral v degree d) := by
  rw [extrinsic, if_neg (by omega)]
  have hlast : degree - 1 + 1 = degree := by omega
  by_cases hd0 : d = 0
  · subst hd0
    obtain ⟨hprod, hdeep⟩ := map_backward hmono hop (n := n) v (degree - 1) (degree - 2) (by omega)
      hN fun i hlow hhigh => hv i (by omega) (by omega)
    rw [if_pos rfl]
    refine ⟨?_, hdeep⟩
    rw [hprod, hlast]
    apply prod_congr _ fun _ _ => rfl
    ext i
    simp only [mem_Ico, mem_erase, mem_range]
    omega
  rw [if_neg hd0]
  by_cases hdl : d = degree - 1
  · obtain ⟨hprod, hdeep⟩ := map_forward hmono hop (n := n) v hN
      fun i hi => hv i (by omega) (by omega)
    rw [if_pos hdl]
    refine ⟨?_, hdeep⟩
    rw [hprod]
    apply prod_congr _ fun _ _ => rfl
    ext i
    simp only [mem_erase, mem_range]
    omega
  · obtain ⟨hprod, hdeep⟩ := map_forward hmono hop (n := n) v (d := d - 1) (by omega)
      fun i hi => hv i (by omega) (by omega)
    obtain ⟨hprod', hdeep'⟩ := map_backward hmono hop (n := n) v (degree - 1)
      (degree - 1 - (d + 1)) (by omega) (by omega) fun i hlow hhigh => hv i (by omega) (by omega)
    -- both halves are at least one operation shallower than the whole
    obtain ⟨hmul, hnext⟩ := hop (n + (degree - 3)) (by omega) _ _
      (deepen hmono (by omega) hdeep) (deepen hmono (by omega) hdeep')
    rw [if_neg hdl]
    refine ⟨?_, by rwa [show n + (degree - 3) + 1 = n + (degree - 2) by omega] at hnext⟩
    rw [hmul, hprod, hprod', hlast]
    have hdisj : Disjoint (range (d - 1 + 1)) (Ico (degree - 1 - (degree - 1 - (d + 1))) degree) := by
      rw [disjoint_left]
      intro i hi hi'
      rw [mem_range] at hi
      rw [mem_Ico] at hi'
      omega
    rw [← prod_union hdisj]
    apply prod_congr _ fun _ _ => rfl
    ext i
    simp only [mem_union, mem_Ico, mem_erase, mem_range]
    omega

end

end Extrinsic
