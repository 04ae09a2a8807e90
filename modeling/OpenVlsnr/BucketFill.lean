import Mathlib.Algebra.BigOperators.Group.Finset.Piecewise
import Mathlib.Data.List.Perm.Subperm
import Mathlib.Tactic.Common

/-!
# Filling buckets behind precomputed offsets

The scatter pass of a counting sort.  Entries `(row, value)` arrive in any order; row `r` owns
the slots from `offset entries r` on, as many as it has entries, and an entry goes to the first
slot of its row not yet taken.

The invariant `BucketFill.Inv` describes the state after any number of entries.  At the end
every slot has been stored exactly once (`Inv.stored_perm`), and the slots of a row hold the
values of its entries in order of arrival (`Inv.slot`).
-/

namespace BucketFill

variable {α : Type*}

/-! ### Rows and offsets -/

/-- The values that belong to row `r`, in order. -/
def bucket (entries : List (ℕ × α)) (r : ℕ) : List α :=
  (entries.filter fun e => e.1 = r).map Prod.snd

/-- Where row `r` starts: after all entries of the rows before it. -/
def offset (entries : List (ℕ × α)) : ℕ → ℕ
  | 0 => 0
  | r + 1 => offset entries r + (bucket entries r).length

@[simp] theorem bucket_nil (r : ℕ) : bucket ([] : List (ℕ × α)) r = [] := rfl

theorem bucket_append (l l' : List (ℕ × α)) (r : ℕ) :
    bucket (l ++ l') r = bucket l r ++ bucket l' r := by
  simp [bucket]

theorem bucket_concat (l : List (ℕ × α)) (e : ℕ × α) (r : ℕ) :
    bucket (l ++ [e]) r = if e.1 = r then bucket l r ++ [e.2] else bucket l r := by
  rw [bucket_append]
  by_cases he : e.1 = r
  · rw [if_pos he]
    simp [bucket, he]
  · rw [if_neg he]
    simp [bucket, he]

theorem bucket_length_le_append (l l' : List (ℕ × α)) (r : ℕ) :
    (bucket l r).length ≤ (bucket (l ++ l') r).length := by
  rw [bucket_append, List.length_append]
  exact Nat.le_add_right _ _

theorem mem_bucket {entries : List (ℕ × α)} {r : ℕ} {v : α} :
    v ∈ bucket entries r ↔ (r, v) ∈ entries := by
  simp [bucket]

theorem offset_mono (entries : List (ℕ × α)) {r r' : ℕ} (h : r ≤ r') :
    offset entries r ≤ offset entries r' := by
  induction h with
  | refl => exact le_rfl
  | step _ ih => exact ih.trans (Nat.le_add_right _ _)

/-- The slots of a row lie below the last offset. -/
theorem offset_add_lt {entries : List (ℕ × α)} {m r i : ℕ} (hr : r < m)
    (hi : i < (bucket entries r).length) : offset entries r + i < offset entries m := by
  have hmono := offset_mono entries (Nat.succ_le_of_lt hr)
  rw [Nat.succ_eq_add_one, offset] at hmono
  omega

/-- Slots of different rows differ, and slots of one row determine the index. -/
theorem offset_add_inj {entries : List (ℕ × α)} {r r' i i' : ℕ}
    (hi : i < (bucket entries r).length) (hi' : i' < (bucket entries r').length)
    (h : offset entries r + i = offset entries r' + i') : r = r' ∧ i = i' := by
  have hrr : r = r' := by
    rcases Nat.lt_trichotomy r r' with hlt | heq | hgt
    · have := offset_add_lt hlt hi
      omega
    · exact heq
    · have := offset_add_lt hgt hi'
      omega
  subst hrr
  exact ⟨rfl, by omega⟩

/-- A slot below the last offset belongs to some row. -/
theorem exists_row_of_lt_offset (entries : List (ℕ × α)) {m p : ℕ} (hp : p < offset entries m) :
    ∃ r < m, ∃ i < (bucket entries r).length, p = offset entries r + i := by
  induction m with
  | zero => exact absurd hp (Nat.not_lt_zero p)
  | succ m ih =>
    by_cases hpm : p < offset entries m
    · obtain ⟨r, hr, h⟩ := ih hpm
      exact ⟨r, hr.trans (Nat.lt_succ_self m), h⟩
    · rw [offset] at hp
      exact ⟨m, Nat.lt_succ_self m, p - offset entries m, by omega, by omega⟩

theorem offset_eq_sum (entries : List (ℕ × α)) (m : ℕ) :
    offset entries m = ∑ r ∈ Finset.range m, (bucket entries r).length := by
  induction m with
  | zero => rfl
  | succ m ih => rw [offset, Finset.sum_range_succ, ih]

/-- When every row is below `m`, the last offset is the number of entries. -/
theorem offset_total {entries : List (ℕ × α)} {m : ℕ} (h : ∀ e ∈ entries, e.1 < m) :
    offset entries m = entries.length := by
  rw [offset_eq_sum]
  induction entries with
  | nil => simp
  | cons e l ih =>
    have hsplit : ∀ r, (bucket (e :: l) r).length
        = (bucket l r).length + if e.1 = r then 1 else 0 := by
      intro r
      by_cases he : e.1 = r
      · simp [bucket, he]
      · simp [bucket, he]
    simp only [hsplit, Finset.sum_add_distrib]
    rw [ih fun e' he' => h e' (List.mem_cons_of_mem e he'), List.length_cons]
    rw [Finset.sum_ite_eq, if_pos (Finset.mem_range.mpr (h e List.mem_cons_self))]

/-! ### Counting and offsets, as they are computed -/

/-- The counting pass: one more entry in its row, for every entry. -/
def countRows (counts : List ℕ) (entries : List (ℕ × α)) : List ℕ :=
  entries.foldl (fun counts e => counts.modify e.1 (· + 1)) counts

theorem getD_modify_add (counts : List ℕ) (d : ℕ) {r r' : ℕ} (hr : r < counts.length) :
    (counts.modify r' (· + d)).getD r 0 = counts.getD r 0 + if r' = r then d else 0 := by
  rw [List.getD_eq_getElem?_getD, List.getD_eq_getElem?_getD, List.getElem?_modify,
    List.getElem?_eq_getElem hr]
  by_cases h : r' = r
  · simp [h]
  · simp [h]

theorem countRows_length (counts : List ℕ) (entries : List (ℕ × α)) :
    (countRows counts entries).length = counts.length := by
  induction entries generalizing counts with
  | nil => rfl
  | cons e l ih => rw [countRows, List.foldl_cons, ← countRows, ih, List.length_modify]

theorem countRows_getD (counts : List ℕ) (entries : List (ℕ × α)) {r : ℕ}
    (hr : r < counts.length) :
    (countRows counts entries).getD r 0 = counts.getD r 0 + (bucket entries r).length := by
  induction entries generalizing counts with
  | nil => rfl
  | cons e l ih =>
    rw [countRows, List.foldl_cons, ← countRows, ih _ (by rw [List.length_modify]; exact hr),
      getD_modify_add counts 1 hr, ← List.singleton_append, bucket_append, List.length_append,
      Nat.add_assoc]
    congr 2
    by_cases he : e.1 = r
    · simp [bucket, he]
    · simp [bucket, he]

/-- The running sums of the counts. -/
def starts (m : ℕ) (counts : List ℕ) : List ℕ :=
  (List.range m).foldl (fun ptr i => ptr.set (i + 1) (ptr.getD i 0 + counts.getD i 0))
    (List.replicate (m + 1) 0)

/-- Computed from the sizes of the rows, the running sums are the offsets. -/
theorem starts_getD {m : ℕ} {counts : List ℕ} {all : List (ℕ × α)}
    (hcounts : ∀ r < m, counts.getD r 0 = (bucket all r).length) {r : ℕ} (hr : r ≤ m) :
    (starts m counts).getD r 0 = offset all r := by
  have key : ∀ n ≤ m, ∀ ptr,
      (List.range n).foldl (fun ptr i => ptr.set (i + 1) (ptr.getD i 0 + counts.getD i 0))
        (List.replicate (m + 1) 0) = ptr →
      ptr.length = m + 1 ∧ ∀ r ≤ n, ptr.getD r 0 = offset all r := by
    intro n
    induction n with
    | zero =>
      intro _ ptr hptr
      subst hptr
      refine ⟨List.length_replicate, fun r hr => ?_⟩
      rw [Nat.le_zero.mp hr]
      rfl
    | succ n ih =>
      intro hn ptr hptr
      rw [List.range_succ, List.foldl_append, List.foldl_cons, List.foldl_nil] at hptr
      obtain ⟨hlen, hval⟩ := ih (by omega) _ rfl
      subst hptr
      refine ⟨by rw [List.length_set, hlen], fun r hr => ?_⟩
      rw [List.getD_eq_getElem?_getD, List.getElem?_set]
      by_cases hrn : n + 1 = r
      · subst hrn
        rw [if_pos rfl, if_pos (by omega), Option.getD_some, hval n le_rfl, hcounts n (by omega)]
        rfl
      · rw [if_neg hrn, ← List.getD_eq_getElem?_getD]
        exact hval r (by omega)
  exact (key m le_rfl _ rfl).2 r hr

/-! ### The scatter pass -/

/-- The running counters of the rows, the slots, and the slots stored to so far, in order. -/
structure State (α : Type*) where
  count : List ℕ
  slots : List α
  stored : List ℕ

/-- One entry goes to the first free slot of its row. -/
def store (start : List ℕ) (s : State α) (e : ℕ × α) : State α :=
  let pos := start.getD e.1 0 + s.count.getD e.1 0
  { count := s.count.modify e.1 (· + 1), slots := s.slots.set pos e.2,
    stored := s.stored ++ [pos] }

/-- All entries, one after the other. -/
def fill (start : List ℕ) (s : State α) (entries : List (ℕ × α)) : State α :=
  entries.foldl (store start) s

theorem fill_append (start : List ℕ) (s : State α) (l l' : List (ℕ × α)) :
    fill start s (l ++ l') = fill start (fill start s l) l' :=
  List.foldl_append

/-- The state after the entries `done` of a list `all`. -/
structure Inv (m : ℕ) (all done : List (ℕ × α)) (s : State α) : Prop where
  count_length : s.count.length = m
  count_eq : ∀ r < m, s.count.getD r 0 = (bucket done r).length
  slots_length : s.slots.length = offset all m
  slot_eq : ∀ r < m, ∀ i < (bucket done r).length,
    s.slots[offset all r + i]? = (bucket done r)[i]?
  stored_length : s.stored.length = done.length
  stored_nodup : s.stored.Nodup
  stored_eq : ∀ p ∈ s.stored, ∃ r < m, ∃ i < (bucket done r).length, p = offset all r + i

theorem Inv.init {m : ℕ} (all : List (ℕ × α)) (slots : List α)
    (hslots : slots.length = offset all m) :
    Inv m all [] { count := List.replicate m 0, slots := slots, stored := [] } where
  count_length := List.length_replicate
  count_eq := by
    intro r hr
    simp [List.getD_eq_getElem?_getD, hr]
  slots_length := hslots
  slot_eq := by
    intro r _ i hi
    exact absurd hi (Nat.not_lt_zero i)
  stored_length := rfl
  stored_nodup := List.nodup_nil
  stored_eq := by
    intro p hp
    exact absurd hp List.not_mem_nil

/-- The bucket of the next entry's row still has room for it. -/
theorem room_of_next {all done rest : List (ℕ × α)} {e : ℕ × α} (hall : all = done ++ e :: rest) :
    (bucket done e.1).length < (bucket all e.1).length := by
  have hgrow := bucket_length_le_append (done ++ [e]) rest e.1
  rw [List.append_assoc, List.singleton_append, ← hall, bucket_concat, if_pos rfl,
    List.length_append, List.length_singleton] at hgrow
  exact hgrow

/-- Its slot is none of those that have been stored to. -/
theorem slot_ne_next {all done rest : List (ℕ × α)} {e : ℕ × α} (hall : all = done ++ e :: rest)
    {r i : ℕ} (hi : i < (bucket done r).length) :
    offset all r + i ≠ offset all e.1 + (bucket done e.1).length := by
  intro heq
  have hle : (bucket done r).length ≤ (bucket all r).length := by
    rw [hall]
    exact bucket_length_le_append done (e :: rest) r
  obtain ⟨rfl, hii⟩ := offset_add_inj (lt_of_lt_of_le hi hle) (room_of_next hall) heq
  omega

/-- The slots behind one more store. -/
theorem slot_of_next {m : ℕ} {all done rest : List (ℕ × α)} {e : ℕ × α} {slots : List α}
    (hall : all = done ++ e :: rest) (he : e.1 < m) (hslots : slots.length = offset all m)
    (hold : ∀ r < m, ∀ i < (bucket done r).length,
      slots[offset all r + i]? = (bucket done r)[i]?) :
    ∀ r < m, ∀ i < (bucket (done ++ [e]) r).length,
      (slots.set (offset all e.1 + (bucket done e.1).length) e.2)[offset all r + i]?
        = (bucket (done ++ [e]) r)[i]? := by
  intro r hr i hi
  have hbound : offset all e.1 + (bucket done e.1).length < slots.length := by
    rw [hslots]
    exact offset_add_lt he (room_of_next hall)
  rw [List.getElem?_set]
  by_cases hstored : i < (bucket done r).length
  · rw [if_neg (slot_ne_next hall hstored).symm, hold r hr i hstored, bucket_concat]
    split
    · rw [List.getElem?_append_left hstored]
    · rfl
  · -- only the row of `e` has a new slot
    have hre : e.1 = r := by
      by_contra hne
      rw [bucket_concat, if_neg hne] at hi
      exact hstored hi
    subst hre
    have hlen : (bucket (done ++ [e]) e.1).length = (bucket done e.1).length + 1 := by
      rw [bucket_concat, if_pos rfl, List.length_append, List.length_singleton]
    have hieq : i = (bucket done e.1).length := by omega
    rw [hieq, if_pos rfl, if_pos hbound, bucket_concat, if_pos rfl,
      List.getElem?_append_right le_rfl]
    simp

/-- **One more entry.** -/
theorem Inv.step {m : ℕ} {start : List ℕ} {all done rest : List (ℕ × α)} {e : ℕ × α}
    {s : State α} (hstart : ∀ r < m, start.getD r 0 = offset all r)
    (hall : all = done ++ e :: rest) (he : e.1 < m) (h : Inv m all done s) :
    Inv m all (done ++ [e]) (store start s e) := by
  have hpos : start.getD e.1 0 + s.count.getD e.1 0
      = offset all e.1 + (bucket done e.1).length := by
    rw [hstart e.1 he, h.count_eq e.1 he]
  have hlen : (bucket (done ++ [e]) e.1).length = (bucket done e.1).length + 1 := by
    rw [bucket_concat, if_pos rfl, List.length_append, List.length_singleton]
  constructor
  · show (s.count.modify e.1 _).length = m
    rw [List.length_modify, h.count_length]
  · intro r hr
    show (s.count.modify e.1 (· + 1)).getD r 0 = _
    rw [getD_modify_add _ 1 (by rw [h.count_length]; exact hr), h.count_eq r hr, bucket_concat]
    by_cases hre : e.1 = r
    · simp [hre]
    · simp [hre]
  · show (s.slots.set _ e.2).length = _
    rw [List.length_set, h.slots_length]
  · show ∀ r < m, ∀ i < _,
      (s.slots.set (start.getD e.1 0 + s.count.getD e.1 0) e.2)[offset all r + i]? = _
    rw [hpos]
    exact slot_of_next hall he h.slots_length h.slot_eq
  · show (s.stored ++ [_]).length = (done ++ [e]).length
    rw [List.length_append, List.length_append, h.stored_length, List.length_singleton,
      List.length_singleton]
  · show (s.stored ++ [_]).Nodup
    rw [hpos, List.nodup_append]
    refine ⟨h.stored_nodup, List.nodup_singleton _, ?_⟩
    intro p hp p' hp'
    obtain ⟨r, hr, i, hi, rfl⟩ := h.stored_eq p hp
    rw [List.mem_singleton] at hp'
    rw [hp']
    exact slot_ne_next hall hi
  · intro p hp
    change p ∈ s.stored ++ [_] at hp
    rcases List.mem_append.mp hp with hold | hnew
    · obtain ⟨r, hr, i, hi, hp⟩ := h.stored_eq p hold
      exact ⟨r, hr, i, lt_of_lt_of_le hi (bucket_length_le_append done [e] r), hp⟩
    · rw [List.mem_singleton, hpos] at hnew
      exact ⟨e.1, he, (bucket done e.1).length, by omega, hnew⟩

/-- **A run over the remaining entries.** -/
theorem Inv.run {m : ℕ} {start : List ℕ} {all : List (ℕ × α)}
    (hstart : ∀ r < m, start.getD r 0 = offset all r) (rest : List (ℕ × α)) {done : List (ℕ × α)}
    {s : State α} (hall : all = done ++ rest) (hrest : ∀ e ∈ rest, e.1 < m)
    (h : Inv m all done s) : Inv m all all (fill start s rest) := by
  induction rest generalizing done s with
  | nil =>
    rw [List.append_nil] at hall
    subst hall
    exact h
  | cons e rest ih =>
    rw [fill, List.foldl_cons, ← fill]
    have hnext := h.step hstart hall (hrest e List.mem_cons_self)
    apply ih _ _ hnext
    · rw [hall, List.append_assoc, List.singleton_append]
    · intro e' he'
      exact hrest e' (List.mem_cons_of_mem e he')

section
variable {m : ℕ} {start : List ℕ} {all : List (ℕ × α)} {slots : List α}

/-- The final state of a whole pass. -/
theorem fill_inv (hstart : ∀ r < m, start.getD r 0 = offset all r) (hall : ∀ e ∈ all, e.1 < m)
    (hslots : slots.length = offset all m) :
    Inv m all all (fill start { count := List.replicate m 0, slots := slots, stored := [] } all) :=
  (Inv.init all slots hslots).run hstart all rfl hall

/-- **Every slot is stored exactly once.** -/
theorem Inv.stored_perm {s : State α} (hall : ∀ e ∈ all, e.1 < m) (h : Inv m all all s) :
    s.stored.Perm (List.range (offset all m)) := by
  have hsub : s.stored ⊆ List.range (offset all m) := by
    intro p hp
    obtain ⟨r, hr, i, hi, rfl⟩ := h.stored_eq p hp
    exact List.mem_range.mpr (offset_add_lt hr hi)
  apply (List.subperm_of_subset h.stored_nodup hsub).perm_of_length_le
  rw [List.length_range, h.stored_length, offset_total hall]

/-- The slots of a row hold the values of its entries. -/
theorem Inv.slot {s : State α} (h : Inv m all all s) {r : ℕ} (hr : r < m) :
    (s.slots.drop (offset all r)).take (bucket all r).length = bucket all r := by
  apply List.ext_getElem?
  intro i
  by_cases hi : i < (bucket all r).length
  · rw [List.getElem?_take_of_lt hi, List.getElem?_drop, h.slot_eq r hr i hi]
  · rw [List.getElem?_eq_none (by rw [List.length_take]; omega),
      List.getElem?_eq_none (not_lt.mp hi)]

end

end BucketFill
