import Mathlib.Data.List.Infix
import Mathlib.Logic.Function.Basic
import Mathlib.Tactic

/-!
# A stream in the slots of a ring

A stream is a growing list.  A ring of `n` slots keeps the elements from `first` on, the `i`-th in
slot `i % n`.  Writing beyond the end of the stream, within `n` of `first`, disturbs nothing;
appending what has been written there and dropping elements at the front keep the relation.  The
counters of a ring may be free-running machine words: their differences and their low bits are
those of the numbers they count.

* `Holds` - the slots hold the stream from `first` on;
* `Filled` - elements written behind the end of a stream, not yet part of it;
* `ofNat_sub_toNat`, `and_mask_toNat` - free-running counters.
-/

namespace RingSlots

variable {α : Type*}

/-! ### Slots -/

/-- Two positions less than a turn apart are in different slots. -/
theorem mod_ne_of_lt {n i j : ℕ} (hij : i < j) (hj : j < i + n) : i % n ≠ j % n := by
  intro h
  have hdvd : n ∣ j - i := (Nat.modEq_iff_dvd' hij.le).mp h
  have := Nat.le_of_dvd (by omega) hdvd
  omega

/-- The elements of the stream from `first` on are in their slots. -/
def Holds (n first : ℕ) (slot : ℕ → α) (stream : List α) : Prop :=
  ∀ i, first ≤ i → ∀ h : i < stream.length, slot (i % n) = stream[i]

/-- The slots of `count` positions. -/
def slotsFrom (n first count : ℕ) : List ℕ :=
  (List.range count).map fun j => (first + j) % n

@[simp] theorem length_slotsFrom (n first count : ℕ) : (slotsFrom n first count).length = count := by
  simp [slotsFrom]

theorem getElem_slotsFrom {n first count j : ℕ} (h : j < (slotsFrom n first count).length) :
    (slotsFrom n first count)[j] = (first + j) % n := by
  simp [slotsFrom]

namespace Holds

variable {n first : ℕ} {slot : ℕ → α} {stream : List α}

theorem empty (n first : ℕ) (slot : ℕ → α) : Holds n first slot [] :=
  fun _ _ h => absurd h (Nat.not_lt_zero _)

/-- Writing a free slot. -/
theorem write (h : Holds n first slot stream) {j : ℕ} (hj : stream.length ≤ j)
    (hroom : j < first + n) (v : α) : Holds n first (Function.update slot (j % n) v) stream := by
  intro i hi hlt
  rw [Function.update_of_ne (mod_ne_of_lt (by omega) (by omega))]
  exact h i hi hlt

/-- Giving slots back. -/
theorem release (h : Holds n first slot stream) {first' : ℕ} (hle : first ≤ first') :
    Holds n first' slot stream :=
  fun i hi hlt => h i (hle.trans hi) hlt

/-- The slots in order are the rest of the stream. -/
theorem map_slotsFrom (h : Holds n first slot stream) :
    (slotsFrom n first (stream.length - first)).map slot = stream.drop first := by
  apply List.ext_getElem
  · simp
  · intro j hj hj'
    rw [List.length_drop] at hj'
    rw [List.getElem_map, getElem_slotsFrom, List.getElem_drop]
    exact h (first + j) (Nat.le_add_right first j) (by omega)

end Holds

/-! ### Elements on their way -/

/-- The first `k` elements of `new` are in the slots from position `start` on. -/
def Filled (n start : ℕ) (slot : ℕ → α) (new : List α) (k : ℕ) : Prop :=
  ∀ j, j < k → ∀ h : j < new.length, slot ((start + j) % n) = new[j]

namespace Filled

variable {n start : ℕ} {slot : ℕ → α} {new : List α} {k : ℕ}

theorem zero (n start : ℕ) (slot : ℕ → α) (new : List α) : Filled n start slot new 0 :=
  fun _ hj => absurd hj (Nat.not_lt_zero _)

/-- One more element. -/
theorem write (h : Filled n start slot new k) (hk : k < new.length) (hroom : k < n) :
    Filled n start (Function.update slot ((start + k) % n) new[k]) new (k + 1) := by
  intro j hj hlt
  obtain hlast | hbefore := Nat.eq_or_lt_of_le (Nat.le_of_lt_succ hj)
  · subst hlast
    exact Function.update_self ..
  · rw [Function.update_of_ne (mod_ne_of_lt (by omega) (by omega))]
    exact h j hbefore hlt

end Filled

/-- What has been written behind the end becomes part of the stream. -/
theorem Holds.append {n first : ℕ} {slot : ℕ → α} {stream new : List α}
    (h : Holds n first slot stream) (hnew : Filled n stream.length slot new new.length) :
    Holds n first slot (stream ++ new) := by
  intro i hi hlt
  obtain hold | hadded := Nat.lt_or_ge i stream.length
  · rw [List.getElem_append_left hold]
    exact h i hi hold
  · rw [List.length_append] at hlt
    have := hnew (i - stream.length) (by omega) (by omega)
    rw [Nat.add_sub_cancel' hadded] at this
    rw [List.getElem_append_right hadded]
    exact this

/-- The head of what is left of a list. -/
theorem cons_eq_drop {β : Type*} {l rest : List β} {x : β} {k : ℕ} (h : x :: rest = l.drop k) :
    ∃ hk : k < l.length, x = l[k] ∧ rest = l.drop (k + 1) := by
  have hk : k < l.length := by
    by_contra hge
    rw [List.drop_of_length_le (not_lt.mp hge)] at h
    cases h
  rw [List.drop_eq_getElem_cons hk] at h
  exact ⟨hk, List.cons.inj h⟩

/-! ### Free-running counters -/

theorem ofNat_sub_toNat {w a b : ℕ} (hle : b ≤ a) (hlt : a - b < 2 ^ w) :
    (BitVec.ofNat w a - BitVec.ofNat w b).toNat = a - b := by
  obtain ⟨d, rfl⟩ := Nat.exists_eq_add_of_le hle
  rw [BitVec.ofNat_add]
  rw [Nat.add_sub_cancel_left] at hlt ⊢
  rw [BitVec.add_comm, BitVec.add_sub_cancel, BitVec.toNat_ofNat, Nat.mod_eq_of_lt hlt]

/-- The low bits of a counter. -/
theorem and_mask_toNat {w a e : ℕ} {mask : BitVec w} (he : e ≤ w) (hmask : mask.toNat = 2 ^ e - 1) :
    (BitVec.ofNat w a &&& mask).toNat = a % 2 ^ e := by
  rw [BitVec.toNat_and, hmask, Nat.and_two_pow_sub_one_eq_mod, BitVec.toNat_ofNat,
    Nat.mod_mod_of_dvd _ (pow_dvd_pow 2 he)]

end RingSlots
