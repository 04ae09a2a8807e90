import OpenVlsnr.ListGetD
import Mathlib.Tactic

/-!
# Linear registers and the errors they detect

A register of `w` bits whose step is linear and injective, fed one bit at a time.  Runs on equally
long words add up (`LinearRegister.run_xor`), so two words leave the same register exactly when
their difference leaves zero.  Three kinds of words that leave something else, when they are read
from zero:

* `LinearRegister.run_ne_zero_of_odd` - an odd number of ones, if the step keeps a parity;
* `LinearRegister.run_ne_zero_of_two` - two ones closer than the order of the loaded word;
* `LinearRegister.run_ne_zero_of_burst` - ones within a window whose contents a run tells apart.
-/

namespace OpenVlsnr

/-! ### Words with few ones -/

/-- A word up to and with its first one. -/
theorem exists_first_one {e : List Bool} {n : ℕ} (h : e.count true = n + 1) :
    ∃ k e', e = List.replicate k false ++ true :: e' ∧ e'.count true = n := by
  induction e with
  | nil => simp at h
  | cons x e ih =>
    cases x with
    | true =>
      refine ⟨0, e, rfl, ?_⟩
      simpa using h
    | false =>
      obtain ⟨k, e', he, hcount⟩ := ih (by simpa using h)
      exact ⟨k + 1, e', by rw [he, List.replicate_succ, List.cons_append], hcount⟩

theorem eq_replicate_of_count {e : List Bool} (h : e.count true = 0) :
    e = List.replicate e.length false :=
  List.eq_replicate_iff.mpr ⟨rfl, fun x hx => by
    cases x with
    | true => exact absurd hx (List.count_eq_zero.mp h)
    | false => rfl⟩

/-- The ones of a word lie within a window of `n` positions, and there are some. -/
structure BurstWithin (n : ℕ) (e : List Bool) : Prop where
  nonempty : true ∈ e
  window : ∃ a, ∀ i, e.getD i false = true → a ≤ i ∧ i < a + n

/-- A word without ones outside a window that fits: zeros, the window, zeros. -/
theorem BurstWithin.split {n : ℕ} {e : List Bool} (h : BurstWithin n e) (hlen : n ≤ e.length) :
    ∃ (k : ℕ) (b : List Bool) (l : ℕ), b.length = n ∧ true ∈ b ∧
      e = List.replicate k false ++ (b ++ List.replicate l false) := by
  obtain ⟨a, ha⟩ := h.window
  -- a window that sticks out is moved back
  set k := min a (e.length - n) with hk
  have hin : ∀ i < e.length, e.getD i false = true → k ≤ i ∧ i < k + n := fun i hi hone => by
    have := ha i hone
    omega
  have hfalse : ∀ i, (i < k ∨ k + n ≤ i) → e.getD i false = false := fun i hi => by
    by_contra hne
    have hone : e.getD i false = true := by simpa using hne
    have hlt : i < e.length := by
      by_contra hge
      rw [List.getD_eq_default _ _ (not_lt.mp hge)] at hone
      exact absurd hone Bool.false_ne_true
    have := hin i hlt hone
    omega
  have hsplit : e = List.replicate k false
      ++ ((e.drop k).take n ++ List.replicate (e.length - (k + n)) false) := by
    have hlow : e.take k = List.replicate k false := by
      refine list_ext_getD false (by rw [List.length_take, List.length_replicate]; omega)
        fun i hi => ?_
      rw [List.length_take] at hi
      rw [getD_take (by omega), getD_replicate_self, hfalse i (Or.inl (by omega))]
    have hhigh : (e.drop k).drop n = List.replicate (e.length - (k + n)) false := by
      refine list_ext_getD false (by simp) fun i _ => ?_
      rw [getD_drop, getD_drop, getD_replicate_self, hfalse _ (Or.inr (by omega))]
    rw [← hhigh, List.take_append_drop, ← hlow, List.take_append_drop]
  refine ⟨k, (e.drop k).take n, e.length - (k + n), ?_, ?_, hsplit⟩
  · rw [List.length_take, List.length_drop]
    omega
  · have hone := h.nonempty
    rw [hsplit] at hone
    simpa [List.mem_replicate] using hone

/-! ### The register -/

/-- A register: its step, and the word that a one adds before it. -/
structure LinearRegister (w : ℕ) where
  step : BitVec w → BitVec w
  load : BitVec w
  step_xor : ∀ a b, step (a ^^^ b) = step a ^^^ step b
  step_injective : Function.Injective step

namespace LinearRegister

variable {w : ℕ} (R : LinearRegister w)

def shift (r : BitVec w) (x : Bool) : BitVec w := R.step (r ^^^ if x then R.load else 0)

/-- The register after a word. -/
def run (r : BitVec w) (bits : List Bool) : BitVec w := bits.foldl R.shift r

@[simp] theorem run_nil (r : BitVec w) : R.run r [] = r := rfl

@[simp] theorem run_cons (r : BitVec w) (x : Bool) (bits : List Bool) :
    R.run r (x :: bits) = R.run (R.shift r x) bits := rfl

theorem run_append (r : BitVec w) (a b : List Bool) :
    R.run r (a ++ b) = R.run (R.run r a) b := List.foldl_append

theorem step_zero : R.step 0 = 0 := by
  have h := R.step_xor 0 0
  rwa [BitVec.xor_self, BitVec.xor_self] at h

theorem shift_false (r : BitVec w) : R.shift r false = R.step r := by
  simp [shift]

/-- Zeros step the register. -/
theorem run_zeros (r : BitVec w) (n : ℕ) : R.run r (List.replicate n false) = R.step^[n] r := by
  induction n generalizing r with
  | zero => rfl
  | succ n ih => rw [List.replicate_succ, run_cons, ih, shift_false, Function.iterate_succ_apply]

theorem iterate_zero (n : ℕ) : R.step^[n] 0 = 0 := Function.iterate_fixed R.step_zero n

theorem iterate_eq_zero {r : BitVec w} {n : ℕ} (h : R.step^[n] r = 0) : r = 0 := by
  rw [← R.iterate_zero n] at h
  exact R.step_injective.iterate n h

theorem shift_xor (r s : BitVec w) (x y : Bool) :
    R.shift (r ^^^ s) (x ^^ y) = R.shift r x ^^^ R.shift s y := by
  unfold shift
  rw [← R.step_xor]
  refine congrArg R.step (BitVec.eq_of_getLsbD_eq fun i _ => ?_)
  cases x <;> cases y <;> simp <;> grind

/-- **Runs add up.** -/
theorem run_xor (r s : BitVec w) {a b : List Bool} (hlen : a.length = b.length) :
    R.run (r ^^^ s) (List.zipWith xor a b) = R.run r a ^^^ R.run s b := by
  induction a generalizing r s b with
  | nil =>
    obtain rfl := List.eq_nil_of_length_eq_zero hlen.symm
    rfl
  | cons x a ih =>
    obtain ⟨y, b, rfl⟩ := List.exists_cons_of_length_eq_add_one hlen.symm
    rw [List.zipWith_cons_cons, run_cons, run_cons, run_cons, ← ih _ _ (by simpa using hlen),
      shift_xor]

/-- An error shows exactly when it does not leave zero itself. -/
theorem run_damaged {a e : List Bool} (hlen : a.length = e.length) :
    R.run 0 (List.zipWith xor a e) = R.run 0 a ^^^ R.run 0 e := by
  have h := R.run_xor 0 0 hlen
  rwa [BitVec.xor_self] at h

/-! ### Detected errors -/

/-- A parity that a step keeps and a load changes counts the ones. -/
theorem parity_run {φ : BitVec w → Bool} (hxor : ∀ a b, φ (a ^^^ b) = (φ a ^^ φ b))
    (hstep : ∀ a, φ (R.step a) = φ a) (hload : φ R.load = true) (r : BitVec w) (e : List Bool) :
    φ (R.run r e) = (φ r ^^ decide (e.count true % 2 = 1)) := by
  induction e generalizing r with
  | nil => simp
  | cons x e ih =>
    rw [run_cons, ih, shift, hstep]
    cases x with
    | false => simp
    | true =>
      rw [if_pos rfl, hxor, hload, List.count_cons_self]
      rcases Nat.mod_two_eq_zero_or_one (e.count true) with h | h
      · simp [Nat.add_mod, h]
      · simp [Nat.add_mod, h]

theorem run_ne_zero_of_odd {φ : BitVec w → Bool} (hxor : ∀ a b, φ (a ^^^ b) = (φ a ^^ φ b))
    (hstep : ∀ a, φ (R.step a) = φ a) (hload : φ R.load = true) {e : List Bool}
    (hodd : e.count true % 2 = 1) : R.run 0 e ≠ 0 := by
  intro h
  have hzero : φ 0 = false := by
    have := hxor 0 0
    rwa [BitVec.xor_self, Bool.xor_self] at this
  have hparity := R.parity_run hxor hstep hload 0 e
  rw [h, hzero, hodd] at hparity
  exact absurd hparity (by decide)

theorem run_first_one (k : ℕ) (e : List Bool) :
    R.run 0 (List.replicate k false ++ true :: e) = R.run (R.step R.load) e := by
  rw [run_append, run_zeros, iterate_zero, run_cons, shift, if_pos rfl]
  simp

/-- Two ones cancel only at a distance that brings the loaded word back. -/
theorem run_ne_zero_of_two {n : ℕ} (horder : ∀ d, 0 < d → d < n → R.step^[d] R.load ≠ R.load)
    {e : List Bool} (hlen : e.length ≤ n) (htwo : e.count true = 2) : R.run 0 e ≠ 0 := by
  obtain ⟨k, e', rfl, hcount⟩ := exists_first_one htwo
  obtain ⟨d, e'', rfl, hrest⟩ := exists_first_one hcount
  rw [eq_replicate_of_count hrest, run_first_one, run_append, run_zeros, run_cons, run_zeros,
    shift, if_pos rfl, ← Function.iterate_succ_apply]
  intro h
  refine horder (d + 1) (Nat.succ_pos d) ?_ (BitVec.xor_eq_zero_iff.mp (R.iterate_eq_zero h))
  simp only [List.length_append, List.length_replicate, List.length_cons] at hlen
  omega

/-- A burst shows if a window on its own does. -/
theorem run_ne_zero_of_burst {n : ℕ}
    (hwindow : ∀ b : List Bool, b.length = n → true ∈ b → R.run 0 b ≠ 0) {e : List Bool}
    (hlen : n ≤ e.length) (hburst : BurstWithin n e) : R.run 0 e ≠ 0 := by
  obtain ⟨k, b, l, hb, hone, rfl⟩ := hburst.split hlen
  rw [run_append, run_append, run_zeros, run_zeros, iterate_zero]
  exact fun h => hwindow b hb hone (R.iterate_eq_zero h)

end LinearRegister

end OpenVlsnr
