import Mathlib.Data.List.GetD
import Mathlib.Tactic.Common

/-!
# Reading lists by index

How `List.getD` reads what the array operations of the model produce.
-/

namespace OpenVlsnr

variable {α : Type*} {x : α}

theorem list_ext_getD (x : α) {a b : List α} (hlen : a.length = b.length)
    (h : ∀ j < a.length, a.getD j x = b.getD j x) : a = b := by
  apply List.ext_getElem hlen
  intro j h₁ h₂
  have := h j h₁
  simpa [List.getD_eq_getElem?_getD, h₁, h₂] using this

/-- An array filled entry by entry. -/
theorem getD_map_range (f : ℕ → α) (n i : ℕ) :
    ((List.range n).map f).getD i x = if i < n then f i else x := by
  rw [List.getD_eq_getElem?_getD, List.getElem?_map]
  by_cases hi : i < n
  · rw [List.getElem?_range hi, if_pos hi]
    rfl
  · rw [List.getElem?_eq_none (by rw [List.length_range]; omega), if_neg hi]
    rfl

theorem getD_replicate_self (n i : ℕ) : (List.replicate n x).getD i x = x := by
  rw [List.getD_eq_getElem?_getD, List.getElem?_getD_replicate_default_eq]

theorem getD_take {l : List α} {k i : ℕ} (hi : i < k) : (l.take k).getD i x = l.getD i x := by
  rw [List.getD_eq_getElem?_getD, List.getElem?_take_of_lt hi, ← List.getD_eq_getElem?_getD]

theorem getD_drop (l : List α) (k i : ℕ) : (l.drop k).getD i x = l.getD (k + i) x := by
  rw [List.getD_eq_getElem?_getD, List.getElem?_drop, ← List.getD_eq_getElem?_getD]

theorem getD_concat {l : List α} {y : α} {i : ℕ} (hi : l.length = i) :
    (l ++ [y]).getD i x = y := by
  rw [List.getD_append_right _ _ _ _ (Nat.le_of_eq hi), hi, Nat.sub_self]
  rfl

theorem getD_set (l : List α) (i j : ℕ) (v : α) (h : i < l.length) :
    (l.set i v).getD j x = if j = i then v else l.getD j x := by
  simp only [List.getD_eq_getElem?_getD, List.getElem?_set]
  by_cases hij : i = j
  · subst hij
    simp [h]
  · rw [if_neg hij, if_neg (Ne.symm hij)]

theorem getD_modify (l : List α) (f : α → α) {i j : ℕ} (h : i < l.length) :
    (l.modify i f).getD j x = if i = j then f (l.getD j x) else l.getD j x := by
  rw [List.getD_eq_getElem?_getD, List.getElem?_modify, List.getD_eq_getElem?_getD]
  by_cases hij : i = j
  · subst hij
    simp [h]
  · simp [hij]

end OpenVlsnr
