import Mathlib.Data.Bool.Count
import OpenVlsnr.Types

/-!
# The data-field layout (`vlsnr_layout.c`)

`build_set` writes the map of payload and pilot positions symbol by symbol.  Only four numbers
decide what it writes next, and a slot changes them in one of two ways, so the loop is followed
at the pace of slots by `countLoop` (`layoutLoop_counts`).  The lengths of the two layouts are
read off there (`modcod_layout`).
-/

namespace OpenVlsnr

/-! ### `build_set` -/

/-- The variables of `build_set`; `map` holds the positions written so far, the last first. -/
structure LayoutState where
  map : List Bool
  dcount : ℕ
  symbols : ℕ
  slotCount : ℕ
  group : ℕ

/-- The group pilot block due after a data symbol: `plen`, if it fires. -/
def groupPilot (set1 : Bool) (group symbols : ℕ) : Option ℕ :=
  if set1 then
    if group ≤ 18 ∧ symbols = 703 then some 34
    else if 19 ≤ group ∧ group ≤ 21 ∧ symbols = 702 then some 36
    else none
  else if group ≤ 9 ∧ symbols = 704 then some 32
  else if group = 10 ∧ symbols = 702 then some 36
  else none

/-- `map[out++] = 0; dcount++; symbols++`. -/
def LayoutState.data (s : LayoutState) : LayoutState :=
  { s with map := false :: s.map, dcount := s.dcount + 1, symbols := s.symbols + 1 }

/-- The fired block at position `k` of a slot: `plen` pilots, then the data symbols from
`x = k + 1 + plen - 90` to 89. -/
def LayoutState.fire (s : LayoutState) (k plen : ℕ) : LayoutState :=
  let n := 180 - (k + 1 + plen)
  { s with
    map := List.replicate n false ++ (List.replicate plen true ++ s.map)
    dcount := s.dcount + n
    symbols := s.symbols + n
    slotCount := (s.slotCount + 1) % 16 }

/-- The loop over `k`, `left` positions before its end; the flag says that it broke off. -/
def slotLoop (set1 : Bool) : ℕ → ℕ → LayoutState → LayoutState × Bool
  | 0, _, s => (s, false)
  | left + 1, k, s =>
      match groupPilot set1 s.data.group s.data.symbols with
      | some plen => (s.data.fire k plen, true)
      | none => slotLoop set1 left (k + 1) s.data

/-- The slot-boundary pilots, when `slot_count` wraps before the last slot. -/
def LayoutState.boundary (s : LayoutState) (slots j : ℕ) : LayoutState :=
  let s := { s with slotCount := (s.slotCount + 1) % 16 }
  if s.slotCount = 0 ∧ j + 1 < slots then
    { s with group := s.group + 1, symbols := 0, map := List.replicate 36 true ++ s.map }
  else s

/-- The loop over `j`; a fired block takes the next slot along. -/
def layoutLoop (set1 : Bool) (slots : ℕ) : ℕ → ℕ → LayoutState → LayoutState
  | 0, _, s => s
  | left + 1, j, s =>
      if j < slots then
        let r := slotLoop set1 90 0 s
        let j := if r.2 then j + 1 else j
        layoutLoop set1 slots left (j + 1) (r.1.boundary slots j)
      else s

/-- The number of slots, pilots of the groups included. -/
def layoutSlots (ndata : ℕ) (set1 : Bool) : ℕ :=
  (ndata + if set1 then 18 * 34 + 3 * 36 else 9 * 32 + 36) / 90

/-- The state in which `build_set` ends. -/
def buildSet (ndata : ℕ) (set1 : Bool) : LayoutState :=
  layoutLoop set1 (layoutSlots ndata set1) (layoutSlots ndata set1) 0
    { map := [], dcount := 0, symbols := 0, slotCount := 10, group := 0 }

/-- `struct dvbs2x_vlsnr_layout`. -/
structure VlsnrLayout where
  fieldLen : ℕ
  numData : ℕ
  numPilot : ℕ
  isPilot : List Bool

/-- The payload symbols of a MODCOD. -/
def layoutData (mc : Modcod) : ℕ :=
  let ndata := if mc.modulation = .qpsk then txCodedBits mc / 2 else txCodedBits mc
  if mc.hasSpread then ndata * 2 else ndata

/-- `dvbs2x_vlsnr_build_layout`. -/
def buildLayout (mc : Modcod) : VlsnrLayout :=
  let s := buildSet (layoutData mc) (mc.set = .set1)
  { fieldLen := s.map.length
    numData := layoutData mc
    numPilot := s.map.length - s.dcount
    isPilot := s.map.reverse }

/-! ### Counting by slots -/

/-- Where the group block of a group sits and how long it is. -/
def groupBlock (set1 : Bool) (group : ℕ) : Option (ℕ × ℕ) :=
  if set1 then
    if group ≤ 18 then some (703, 34) else if group ≤ 21 then some (702, 36) else none
  else if group ≤ 9 then some (704, 32)
  else if group = 10 then some (702, 36)
  else none

theorem groupPilot_eq (set1 : Bool) (group symbols : ℕ) :
    groupPilot set1 group symbols
      = (groupBlock set1 group).bind fun b => if symbols = b.1 then some b.2 else none := by
  cases set1
  · simp only [groupPilot, groupBlock, Bool.false_eq_true, if_false]
    by_cases h9 : group ≤ 9
    · simp only [h9, true_and, if_true, Option.bind_some]
      split
      · rfl
      · rw [if_neg (by omega)]
    · by_cases h10 : group = 10
      · simp [h10]
      · simp [h9, h10]
  · simp only [groupPilot, groupBlock, if_true]
    by_cases h18 : group ≤ 18
    · simp only [h18, true_and, if_true, Option.bind_some]
      split
      · rfl
      · rw [if_neg (by omega)]
    · by_cases h21 : group ≤ 21
      · simp [h18, h21, show 19 ≤ group by omega]
      · simp [h18, h21]

/-- The numbers that decide how the loop goes on, with the lengths written. -/
structure LayoutCounts where
  out : ℕ
  dcount : ℕ
  symbols : ℕ
  slotCount : ℕ
  group : ℕ
  deriving DecidableEq

def LayoutState.counts (s : LayoutState) : LayoutCounts :=
  { out := s.map.length, dcount := s.dcount, symbols := s.symbols, slotCount := s.slotCount,
    group := s.group }

/-- `d` data symbols and `p` pilots more. -/
def LayoutCounts.add (c : LayoutCounts) (d p : ℕ) : LayoutCounts :=
  { c with out := c.out + d + p, dcount := c.dcount + d, symbols := c.symbols + d }

/-- The rest of a slot from position `k` on, at once. -/
def countSlot (set1 : Bool) (left k : ℕ) (c : LayoutCounts) : LayoutCounts × Bool :=
  match groupBlock set1 c.group with
  | some (at', plen) =>
      if c.symbols < at' ∧ at' ≤ c.symbols + left then
        let d := at' - c.symbols
        let c := c.add (d + (180 - (k + d + plen))) plen
        ({ c with slotCount := (c.slotCount + 1) % 16 }, true)
      else (c.add left 0, false)
  | none => (c.add left 0, false)

def countBoundary (slots j : ℕ) (c : LayoutCounts) : LayoutCounts :=
  let c := { c with slotCount := (c.slotCount + 1) % 16 }
  if c.slotCount = 0 ∧ j + 1 < slots then
    { c with group := c.group + 1, symbols := 0, out := c.out + 36 }
  else c

def countLoop (set1 : Bool) (slots : ℕ) : ℕ → ℕ → LayoutCounts → LayoutCounts
  | 0, _, c => c
  | left + 1, j, c =>
      if j < slots then
        let r := countSlot set1 90 0 c
        let j := if r.2 then j + 1 else j
        countLoop set1 slots left (j + 1) (countBoundary slots j r.1)
      else c

/-- **One slot.** -/
theorem slotLoop_counts (set1 : Bool) (left k : ℕ) (s : LayoutState) :
    ((slotLoop set1 left k s).1.counts, (slotLoop set1 left k s).2)
      = countSlot set1 left k s.counts := by
  induction left generalizing k s with
  | zero =>
    rw [slotLoop, countSlot]
    split
    · rw [if_neg (by omega)]
      rfl
    · rfl
  | succ left ih =>
    rw [slotLoop, groupPilot_eq]
    have hgroup : s.data.group = s.group := rfl
    have hsymbols : s.data.symbols = s.symbols + 1 := rfl
    have hcounts : s.data.counts = s.counts.add 1 0 := rfl
    rw [hgroup, hsymbols, countSlot, show s.counts.group = s.group from rfl,
      show s.counts.symbols = s.symbols from rfl]
    rcases hblock : groupBlock set1 s.group with _ | ⟨at', plen⟩
    · -- no block in this group
      simp only [Option.bind_none]
      rw [ih, countSlot, hcounts, show (s.counts.add 1 0).group = s.group from rfl, hblock]
      simp only [LayoutCounts.add, Prod.mk.injEq, LayoutCounts.mk.injEq, and_true]
      omega
    · simp only [Option.bind_some]
      by_cases hhere : s.symbols + 1 = at'
      · rw [if_pos hhere, if_pos (by omega)]
        have hd : at' - s.symbols = 1 := by omega
        simp only [hd, LayoutState.fire, LayoutState.counts, LayoutState.data, LayoutCounts.add,
          List.length_append, List.length_replicate, List.length_cons, Prod.mk.injEq,
          LayoutCounts.mk.injEq, and_true]
        omega
      · rw [if_neg hhere]
        dsimp only
        rw [ih, countSlot, hcounts, show (s.counts.add 1 0).group = s.group from rfl, hblock,
          show (s.counts.add 1 0).symbols = s.symbols + 1 from rfl]
        dsimp only
        by_cases hlater : s.symbols < at' ∧ at' ≤ s.symbols + (left + 1)
        · rw [if_pos (by omega), if_pos hlater]
          simp only [LayoutCounts.add, Prod.mk.injEq, LayoutCounts.mk.injEq, and_true]
          omega
        · rw [if_neg (by omega), if_neg hlater]
          simp only [LayoutCounts.add, Prod.mk.injEq, LayoutCounts.mk.injEq, and_true]
          omega

theorem boundary_eq (slots j : ℕ) (s : LayoutState) :
    s.boundary slots j
      = if (s.slotCount + 1) % 16 = 0 ∧ j + 1 < slots then
          { map := List.replicate 36 true ++ s.map, dcount := s.dcount, symbols := 0,
            slotCount := (s.slotCount + 1) % 16, group := s.group + 1 }
        else { s with slotCount := (s.slotCount + 1) % 16 } := rfl

theorem boundary_counts (slots j : ℕ) (s : LayoutState) :
    (s.boundary slots j).counts = countBoundary slots j s.counts := by
  have hcount : countBoundary slots j s.counts
      = if (s.slotCount + 1) % 16 = 0 ∧ j + 1 < slots then
          { out := s.map.length + 36, dcount := s.dcount, symbols := 0,
            slotCount := (s.slotCount + 1) % 16, group := s.group + 1 }
        else { s.counts with slotCount := (s.slotCount + 1) % 16 } := rfl
  rw [boundary_eq, hcount]
  by_cases hwrap : (s.slotCount + 1) % 16 = 0 ∧ j + 1 < slots
  · rw [if_pos hwrap, if_pos hwrap, LayoutState.counts, List.length_append,
      List.length_replicate, Nat.add_comm 36]
  · rw [if_neg hwrap, if_neg hwrap]
    rfl

/-- **The whole loop.** -/
theorem layoutLoop_counts (set1 : Bool) (slots left j : ℕ) (s : LayoutState) :
    (layoutLoop set1 slots left j s).counts = countLoop set1 slots left j s.counts := by
  induction left generalizing j s with
  | zero => rfl
  | succ left ih =>
    rw [layoutLoop, countLoop]
    split
    · have hslot := slotLoop_counts set1 90 0 s
      rw [← hslot, ih, boundary_counts]
    · rfl

/-! ### The map -/

/-- The map holds as many payload positions as were counted. -/
def LayoutState.Counted (s : LayoutState) : Prop := s.map.count false = s.dcount

theorem LayoutState.Counted.data {s : LayoutState} (h : s.Counted) : s.data.Counted := by
  simp only [LayoutState.Counted, LayoutState.data, List.count_cons_self]
  rw [h]

theorem LayoutState.Counted.fire {s : LayoutState} (h : s.Counted) (k plen : ℕ) :
    (s.fire k plen).Counted := by
  simp only [LayoutState.Counted, LayoutState.fire, List.count_append, List.count_replicate]
  rw [h]
  simp [Nat.add_comm]

theorem LayoutState.Counted.boundary {s : LayoutState} (h : s.Counted) (slots j : ℕ) :
    (s.boundary slots j).Counted := by
  rw [boundary_eq]
  split
  · rw [LayoutState.Counted, List.count_append, List.count_replicate]
    exact (Nat.zero_add _).trans h
  · exact h

theorem slotLoop_counted {set1 : Bool} (left k : ℕ) {s : LayoutState} (h : s.Counted) :
    (slotLoop set1 left k s).1.Counted := by
  induction left generalizing k s with
  | zero => exact h
  | succ left ih =>
    rw [slotLoop]
    split
    · exact h.data.fire k _
    · exact ih (k + 1) h.data

theorem layoutLoop_counted {set1 : Bool} {slots : ℕ} (left j : ℕ) {s : LayoutState}
    (h : s.Counted) : (layoutLoop set1 slots left j s).Counted := by
  induction left generalizing j s with
  | zero => exact h
  | succ left ih =>
    rw [layoutLoop]
    split
    · exact ih _ ((slotLoop_counted 90 0 h).boundary slots _)
    · exact h

/-- **The layout of every MODCOD.**  Its map has one position for every payload symbol and
every pilot and, with the headers, the length of a frame of its set. -/
theorem modcod_layout : ∀ mc ∈ vlsnrModcodTable,
    (buildLayout mc).isPilot.count false = (buildLayout mc).numData ∧
      (buildLayout mc).isPilot.count true = (buildLayout mc).numPilot ∧
      (buildLayout mc).isPilot.length = (buildLayout mc).fieldLen ∧
      plheaderLen + vlsnrHdrLen + (buildLayout mc).fieldLen
        = if mc.set = .set1 then vlsnrFrameLong else vlsnrFrameShort := by
  have hcounts : ∀ mc ∈ vlsnrModcodTable,
      (countLoop (mc.set = .set1) (layoutSlots (layoutData mc) (mc.set = .set1))
        (layoutSlots (layoutData mc) (mc.set = .set1)) 0 ⟨0, 0, 0, 10, 0⟩).dcount
          = layoutData mc ∧
      plheaderLen + vlsnrHdrLen +
        (countLoop (mc.set = .set1) (layoutSlots (layoutData mc) (mc.set = .set1))
          (layoutSlots (layoutData mc) (mc.set = .set1)) 0 ⟨0, 0, 0, 10, 0⟩).out
          = if mc.set = .set1 then vlsnrFrameLong else vlsnrFrameShort := by
    decide +kernel
  intro mc hmc
  obtain ⟨hd, hout⟩ := hcounts mc hmc
  have hrun := layoutLoop_counts (mc.set = .set1) (layoutSlots (layoutData mc) (mc.set = .set1))
    (layoutSlots (layoutData mc) (mc.set = .set1)) 0 ⟨[], 0, 0, 10, 0⟩
  have hcounted : (buildSet (layoutData mc) (mc.set = .set1)).Counted :=
    layoutLoop_counted _ _ rfl
  rw [show LayoutState.counts ⟨[], 0, 0, 10, 0⟩ = ⟨0, 0, 0, 10, 0⟩ from rfl] at hrun
  rw [← hrun] at hd hout
  refine ⟨?_, ?_, List.length_reverse, hout⟩
  · rw [buildLayout, List.count_reverse]
    exact hcounted.trans hd
  · have hboth := List.count_true_add_count_false
      (buildSet (layoutData mc) (mc.set = .set1)).map
    rw [hcounted] at hboth
    rw [buildLayout, List.count_reverse]
    dsimp only
    omega

end OpenVlsnr
