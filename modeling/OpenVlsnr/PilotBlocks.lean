import Mathlib.Data.List.GetD
import OpenVlsnr.VlsnrLayout

/-!
# The pilot blocks of a layout

`residual_carrier_track` walks over the map of a layout and measures one phase on each run of
pilots (`pilotBlocks`).  The map of every MODCOD is written in runs (`layoutLoop_runs`), and the
blocks are read off these (`pilotBlocksFrom_expand`), so that facts about all blocks of a layout
are small computations.
-/

namespace OpenVlsnr

/-! ### The walk over the map -/

/-- The runs of pilots: where each begins and how long it is.  `blk` of them end before `i`. -/
def pilotBlocksFrom : ℕ → ℕ → List Bool → List (ℕ × ℕ)
  | i, blk, [] => if blk = 0 then [] else [(i - blk, blk)]
  | i, blk, true :: map => pilotBlocksFrom (i + 1) (blk + 1) map
  | i, blk, false :: map =>
    if blk = 0 then pilotBlocksFrom (i + 1) 0 map
    else (i - blk, blk) :: pilotBlocksFrom (i + 1) 0 map

/-- The blocks that `residual_carrier_track` measures. -/
def pilotBlocks (lay : VlsnrLayout) : List (ℕ × ℕ) := pilotBlocksFrom 0 0 lay.isPilot

/-- Every position of a block holds a pilot. -/
theorem isPilot_of_mem (map : List Bool) (i blk : ℕ) :
    ∀ pre : List Bool, pre.length + blk = i →
      ∀ b ∈ pilotBlocksFrom i blk map, ∀ n < b.2,
        (pre ++ List.replicate blk true ++ map).getD (b.1 + n) false = true := by
  -- the run that is open, when it ends here
  have hopen : ∀ (pre rest : List Bool) (i blk : ℕ), pre.length + blk = i → ∀ n < blk,
      (pre ++ List.replicate blk true ++ rest).getD (i - blk + n) false = true := by
    intro pre rest i blk hi n hn
    rw [List.append_assoc, List.getD_append_right _ _ _ _ (by omega),
      List.getD_append _ _ _ _ (by rw [List.length_replicate]; omega),
      show i - blk + n - pre.length = n by omega,
      List.getD_eq_getElem _ _ (by rwa [List.length_replicate]), List.getElem_replicate]
  induction map generalizing i blk with
  | nil =>
    intro pre hi b hb n hn
    rw [pilotBlocksFrom] at hb
    split at hb
    · simp at hb
    · obtain rfl := List.mem_singleton.mp hb
      exact hopen pre [] i blk hi n hn
  | cons p map ih =>
    intro pre hi b hb n hn
    cases p with
    | true =>
      have h := ih (i + 1) (blk + 1) pre (by omega) b hb n hn
      rwa [List.replicate_succ', List.append_assoc, List.append_assoc, List.singleton_append,
        ← List.append_assoc] at h
    | false =>
      have hrest : b ∈ pilotBlocksFrom (i + 1) 0 map →
          (pre ++ List.replicate blk true ++ false :: map).getD (b.1 + n) false = true := by
        intro hb
        have h := ih (i + 1) 0 (pre ++ List.replicate blk true ++ [false]) (by simp; omega) b hb n hn
        simpa using h
      rw [pilotBlocksFrom] at hb
      split at hb
      · exact hrest hb
      · rcases List.mem_cons.mp hb with rfl | hb
        · exact hopen pre (false :: map) i blk hi n hn
        · exact hrest hb

theorem pilotBlocks_isPilot {lay : VlsnrLayout} {b : ℕ × ℕ} (hb : b ∈ pilotBlocks lay) {n : ℕ}
    (hn : n < b.2) : lay.isPilot.getD (b.1 + n) false = true := by
  have h := isPilot_of_mem lay.isPilot 0 0 [] rfl b hb n hn
  simpa using h

/-! ### Maps in runs -/

/-- `d` payload symbols and `p` pilots, for each run. -/
def expandRuns : List (ℕ × ℕ) → List Bool
  | [] => []
  | (d, p) :: runs => List.replicate d false ++ (List.replicate p true ++ expandRuns runs)

/-- The blocks of a map in runs. -/
def runBlocks : ℕ → ℕ → List (ℕ × ℕ) → List (ℕ × ℕ)
  | i, blk, [] => if blk = 0 then [] else [(i - blk, blk)]
  | i, blk, (d, p) :: runs =>
    if d = 0 then runBlocks (i + p) (blk + p) runs
    else if blk = 0 then runBlocks (i + d + p) p runs
    else (i - blk, blk) :: runBlocks (i + d + p) p runs

theorem expandRuns_append (a b : List (ℕ × ℕ)) :
    expandRuns (a ++ b) = expandRuns a ++ expandRuns b := by
  induction a with
  | nil => rfl
  | cons r a ih =>
    obtain ⟨d, p⟩ := r
    simp only [List.cons_append, expandRuns, ih, List.append_assoc]

theorem pilotBlocksFrom_pilots (i blk p : ℕ) (map : List Bool) :
    pilotBlocksFrom i blk (List.replicate p true ++ map)
      = pilotBlocksFrom (i + p) (blk + p) map := by
  induction p generalizing i blk with
  | zero => rfl
  | succ p ih =>
    rw [List.replicate_succ, List.cons_append, pilotBlocksFrom, ih]
    congr 1
    · omega
    · omega

theorem pilotBlocksFrom_payload (i d : ℕ) (map : List Bool) :
    pilotBlocksFrom i 0 (List.replicate d false ++ map) = pilotBlocksFrom (i + d) 0 map := by
  induction d generalizing i with
  | zero => rfl
  | succ d ih =>
    rw [List.replicate_succ, List.cons_append, pilotBlocksFrom, if_pos rfl, ih]
    congr 1
    omega

/-- **The blocks of a map in runs.** -/
theorem pilotBlocksFrom_expand (runs : List (ℕ × ℕ)) (i blk : ℕ) :
    pilotBlocksFrom i blk (expandRuns runs) = runBlocks i blk runs := by
  induction runs generalizing i blk with
  | nil => rfl
  | cons r runs ih =>
    obtain ⟨d, p⟩ := r
    rw [expandRuns, runBlocks]
    rcases d with _ | d
    · rw [if_pos rfl, List.replicate_zero, List.nil_append, pilotBlocksFrom_pilots, ih]
    · have hrest : pilotBlocksFrom (i + 1) 0
          (List.replicate d false ++ (List.replicate p true ++ expandRuns runs))
          = runBlocks (i + (d + 1) + p) p runs := by
        rw [pilotBlocksFrom_payload, pilotBlocksFrom_pilots, ih, Nat.zero_add]
        congr 1
        omega
      rw [if_neg (Nat.succ_ne_zero d), List.replicate_succ, List.cons_append, pilotBlocksFrom,
        hrest]

/-! ### The runs of the layouts -/

/-- What the rest of a slot writes, from position `k` on. -/
def slotRuns (set1 : Bool) (left k : ℕ) (c : LayoutCounts) : List (ℕ × ℕ) :=
  match groupBlock set1 c.group with
  | some (at', plen) =>
      if c.symbols < at' ∧ at' ≤ c.symbols + left then
        let d := at' - c.symbols
        [(d, plen), (180 - (k + d + plen), 0)]
      else [(left, 0)]
  | none => [(left, 0)]

def boundaryRuns (slots j : ℕ) (c : LayoutCounts) : List (ℕ × ℕ) :=
  if (c.slotCount + 1) % 16 = 0 ∧ j + 1 < slots then [(0, 36)] else []

def loopRuns (set1 : Bool) (slots : ℕ) : ℕ → ℕ → LayoutCounts → List (ℕ × ℕ)
  | 0, _, _ => []
  | left + 1, j, c =>
      if j < slots then
        let r := countSlot set1 90 0 c
        let j := if r.2 then j + 1 else j
        slotRuns set1 90 0 c ++ (boundaryRuns slots j r.1 ++
          loopRuns set1 slots left (j + 1) (countBoundary slots j r.1))
      else []

theorem expandRuns_payload (d : ℕ) : expandRuns [(d, 0)] = List.replicate d false := by
  simp [expandRuns]

/-- **One slot.** -/
theorem slotLoop_runs (set1 : Bool) (left k : ℕ) (s : LayoutState) :
    (slotLoop set1 left k s).1.map.reverse
      = s.map.reverse ++ expandRuns (slotRuns set1 left k s.counts) := by
  induction left generalizing k s with
  | zero =>
    have hnone : slotRuns set1 0 k s.counts = [(0, 0)] := by
      rw [slotRuns]
      split
      · rw [if_neg (by omega)]
      · rfl
    rw [slotLoop, hnone, expandRuns_payload, List.replicate_zero, List.append_nil]
  | succ left ih =>
    have hdata : s.data.map.reverse = s.map.reverse ++ [false] := List.reverse_cons
    have hcounts : s.data.counts = s.counts.add 1 0 := rfl
    rw [slotLoop, groupPilot_eq, show s.data.group = s.group from rfl,
      show s.data.symbols = s.symbols + 1 from rfl, slotRuns,
      show s.counts.group = s.group from rfl, show s.counts.symbols = s.symbols from rfl]
    rcases hblock : groupBlock set1 s.group with _ | ⟨at', plen⟩
    · -- no block in this group
      dsimp only [Option.bind_none]
      rw [ih, slotRuns, hcounts, show (s.counts.add 1 0).group = s.group from rfl, hblock, hdata]
      dsimp only
      rw [expandRuns_payload, expandRuns_payload, List.append_assoc, List.singleton_append,
        ← List.replicate_succ]
    · simp only [Option.bind_some]
      by_cases hhere : s.symbols + 1 = at'
      · -- the block fires behind this symbol
        have hfire : (s.data.fire k plen).map.reverse
            = s.map.reverse ++ ([false] ++ (List.replicate plen true ++
              List.replicate (180 - (k + 1 + plen)) false)) := by
          simp [LayoutState.fire, hdata]
        have hd : at' - s.symbols = 1 := by omega
        rw [if_pos hhere, if_pos (by omega)]
        dsimp only
        rw [hfire, hd, expandRuns, expandRuns_payload]
        rfl
      · rw [if_neg hhere]
        dsimp only
        rw [ih, slotRuns, hcounts, show (s.counts.add 1 0).group = s.group from rfl, hblock,
          show (s.counts.add 1 0).symbols = s.symbols + 1 from rfl, hdata]
        dsimp only
        by_cases hlater : s.symbols < at' ∧ at' ≤ s.symbols + (left + 1)
        · have hd : at' - s.symbols = at' - (s.symbols + 1) + 1 := by omega
          rw [if_pos (by omega), if_pos hlater, hd,
            show k + 1 + (at' - (s.symbols + 1)) + plen
              = k + (at' - (s.symbols + 1) + 1) + plen by omega]
          simp only [expandRuns, List.replicate_succ, List.cons_append, List.append_assoc,
            List.nil_append]
        · rw [if_neg (by omega), if_neg hlater, expandRuns_payload, expandRuns_payload,
            List.append_assoc, List.singleton_append, ← List.replicate_succ]

theorem boundary_runs (slots j : ℕ) (s : LayoutState) :
    (s.boundary slots j).map.reverse
      = s.map.reverse ++ expandRuns (boundaryRuns slots j s.counts) := by
  rw [boundary_eq, boundaryRuns, show s.counts.slotCount = s.slotCount from rfl]
  split
  · simp [expandRuns]
  · simp [expandRuns]

/-- **The whole loop** writes its runs. -/
theorem layoutLoop_runs (set1 : Bool) (slots left j : ℕ) (s : LayoutState) :
    (layoutLoop set1 slots left j s).map.reverse
      = s.map.reverse ++ expandRuns (loopRuns set1 slots left j s.counts) := by
  induction left generalizing j s with
  | zero => simp [layoutLoop, loopRuns, expandRuns]
  | succ left ih =>
    rw [layoutLoop, loopRuns]
    split
    · have hslot := slotLoop_counts set1 90 0 s
      rw [← hslot]
      dsimp only
      rw [ih, boundary_runs, boundary_counts, slotLoop_runs]
      simp only [expandRuns_append, List.append_assoc]
    · simp [expandRuns]

/-- The blocks of a MODCOD, computed by runs. -/
def modcodBlocks (mc : Modcod) : List (ℕ × ℕ) :=
  let slots := layoutSlots (layoutData mc) (mc.set = .set1)
  runBlocks 0 0 (loopRuns (mc.set = .set1) slots slots 0 ⟨0, 0, 0, 10, 0⟩)

theorem pilotBlocks_eq (mc : Modcod) : pilotBlocks (buildLayout mc) = modcodBlocks mc := by
  rw [pilotBlocks, buildLayout, modcodBlocks, ← pilotBlocksFrom_expand]
  dsimp only
  rw [buildSet, layoutLoop_runs]
  rfl

end OpenVlsnr
