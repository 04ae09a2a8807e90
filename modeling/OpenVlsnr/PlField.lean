import Mathlib.Analysis.Real.Sqrt
import OpenVlsnr.ListGetD
import OpenVlsnr.Scrambler
import OpenVlsnr.VlsnrLayout

/-!
# The data field of a physical-layer frame

Mapping, pilots and scrambling on the way out (`dvbs2x_modulate_bbframe_symbols_ex`,
`modulate.c`, `pilot_insert.c`); descrambling, extraction and demapping on the way in
(`dvbs2x_demodulate_bbframe_symbols_ex`, `demodulate.c`).

Each stage has a lemma that its inverse recovers what it was given: the scrambler in
`descrambleField_scrambleField`, the pilots in `pilotExtract_insert`, the three mappings in
`plLlr_symbols`.  `plChain_inverse` puts them together.
-/

namespace OpenVlsnr

/-! ### Constants -/

/-- `M_SQRT1_2` and `M_SQRT2_D`.  Only that they are positive is used of them. -/
structure Sqrt2 (R : Type*) [Field R] [LinearOrder R] where
  half : R
  two : R
  half_pos : 0 < half
  two_pos : 0 < two

/-- The exact constants. -/
noncomputable def Sqrt2.exact : Sqrt2 ℝ where
  half := (√2)⁻¹
  two := √2
  half_pos := by positivity
  two_pos := by positivity

section
variable {R : Type*} [Field R] [LinearOrder R] (const : Sqrt2 R)

/-- `DVBS2X_PILOT_I` and `DVBS2X_PILOT_Q`. -/
def Sqrt2.pilot : Cplx R := ⟨const.half, const.half⟩

/-! ### Mapping -/

/-- Entry `n` of `dvbs2x_mod_pi2bpsk`. -/
def pi2bpskSymbol (n : ℕ) (b : Bool) : Cplx R :=
  if n % 2 = 0 then
    ⟨if b then -const.half else const.half, if b then -const.half else const.half⟩
  else ⟨if b then const.half else -const.half, if b then -const.half else const.half⟩

/-- `dvbs2x_mod_pi2bpsk`. -/
def modPi2bpsk (bits : List Bool) (len : ℕ) : List (Cplx R) :=
  (List.range len).map fun n => pi2bpskSymbol const n (bits.getD n false)

/-- `dvbs2x_mod_qpsk`. -/
def modQpsk (bits : List Bool) (numSymbols : ℕ) : List (Cplx R) :=
  (List.range numSymbols).map fun n =>
    let b0 := bits.getD (2 * n) false
    let b1 := bits.getD (2 * n + 1) false
    ⟨if b0 then -const.half else const.half, if b1 then -const.half else const.half⟩

/-- Two entries for every index: `out[2 * n]` and `out[2 * n + 1]`. -/
def interleavePairs {α : Type*} (f g : ℕ → α) (n : ℕ) : List α :=
  (List.range n).flatMap fun k => [f k, g k]

/-- `dvbs2x_mod_spread_bits`. -/
def modSpreadBits (bits : List Bool) (inLen : ℕ) : List Bool :=
  interleavePairs (fun n => bits.getD n false) (fun n => bits.getD n false) inLen

/-- The constellation mapping of the modulator. -/
def plSymbols (mc : Modcod) (txBits : List Bool) : List (Cplx R) :=
  let txCoded := txCodedBits mc
  if mc.modulation = .qpsk then modQpsk const txBits (txCoded / 2)
  else if mc.hasSpread then
    modPi2bpsk const (modSpreadBits txBits txCoded) (txCoded * 2)
  else modPi2bpsk const txBits txCoded

/-- `dvbs2x_pilot_insert`, `dataIdx` payload symbols in. -/
def pilotInsertFrom (data : List (Cplx R)) : ℕ → List Bool → List (Cplx R)
  | _, [] => []
  | dataIdx, true :: map => const.pilot :: pilotInsertFrom data dataIdx map
  | dataIdx, false :: map => data.getD dataIdx 0 :: pilotInsertFrom data (dataIdx + 1) map

def pilotInsert (data : List (Cplx R)) (lay : VlsnrLayout) : List (Cplx R) :=
  pilotInsertFrom const data 0 lay.isPilot

/-- The data field that the modulator writes behind the headers; `none` is its check of the
symbol count. -/
def plTransmit (mc : Modcod) (goldIdx : ℕ) (txBits : List Bool) : Option (List (Cplx R)) :=
  let lay := buildLayout mc
  let txSym := plSymbols const mc txBits
  if txSym.length ≠ lay.numData then none
  else
    let scr := scramblerSeek (scramblerReset (scramblerInit goldIdx)) vlsnrHdrLen
    some (scrambleField scr (pilotInsert const txSym lay) lay.isPilot
      (mc.modulation = .qpsk)).1

/-! ### Demapping -/

omit [LinearOrder R] in
/-- Payload symbols and pilots of a field, from position `i` on. -/
def pilotExtractFrom (field : List (Cplx R)) : ℕ → List Bool → List (Cplx R) × List (Cplx R)
  | _, [] => ([], [])
  | i, true :: map =>
      let r := pilotExtractFrom field (i + 1) map
      (r.1, field.getD i 0 :: r.2)
  | i, false :: map =>
      let r := pilotExtractFrom field (i + 1) map
      (field.getD i 0 :: r.1, r.2)

omit [LinearOrder R] in
/-- `dvbs2x_pilot_extract`. -/
def pilotExtract (field : List (Cplx R)) (lay : VlsnrLayout) :
    List (Cplx R) × List (Cplx R) :=
  pilotExtractFrom field 0 lay.isPilot

/-- `dvbs2x_demod_pi2bpsk`. -/
def demodPi2bpsk (symbols : List (Cplx R)) (len : ℕ) (noiseVar : R) : List R :=
  let scale := const.two / noiseVar
  (List.range len).map fun n =>
    let s := symbols.getD n 0
    if n % 2 = 0 then scale * (s.i + s.q) else scale * (s.q - s.i)

/-- `dvbs2x_demod_qpsk`. -/
def demodQpsk (symbols : List (Cplx R)) (numSymbols : ℕ) (noiseVar : R) : List R :=
  let scale := 2 * const.half / noiseVar
  interleavePairs (fun n => scale * (symbols.getD n 0).i) (fun n => scale * (symbols.getD n 0).q)
    numSymbols

omit [LinearOrder R] in
/-- `dvbs2x_demod_despread_llr`. -/
def demodDespreadLlr (llr : List R) (outLen : ℕ) : List R :=
  (List.range outLen).map fun n => llr.getD (2 * n) 0 + llr.getD (2 * n + 1) 0

/-- The demapper: the LLRs of the coded bits. -/
def plLlr (mc : Modcod) (dataSym : List (Cplx R)) (demapNv : R) : List R :=
  let ndata := dataSym.length
  let symLlr := if mc.modulation = .qpsk then demodQpsk const dataSym ndata demapNv
    else demodPi2bpsk const dataSym ndata demapNv
  if mc.hasSpread then demodDespreadLlr symLlr (ndata / 2)
  else if mc.modulation = .qpsk then symLlr.take (2 * ndata)
  else symLlr.take ndata

/-- The receiver on a synchronised field: LLRs and pilots. -/
def plReceive (mc : Modcod) (goldIdx : ℕ) (noiseVar : R) (field : List (Cplx R)) :
    List R × List (Cplx R) :=
  let lay := buildLayout mc
  let scr := scramblerSeek (scramblerReset (scramblerInit goldIdx)) vlsnrHdrLen
  let work := (descrambleField scr field lay.isPilot (mc.modulation = .qpsk)).1
  let r := pilotExtract work lay
  (plLlr const mc r.1 noiseVar, r.2)

end

/-! ### Pilots -/

section
variable {R : Type*} [Field R] [LinearOrder R] (const : Sqrt2 R)

theorem pilotInsertFrom_length (data : List (Cplx R)) (dataIdx : ℕ) (map : List Bool) :
    (pilotInsertFrom const data dataIdx map).length = map.length := by
  induction map generalizing dataIdx with
  | nil => rfl
  | cons b map ih =>
    cases b
    · rw [pilotInsertFrom, List.length_cons, List.length_cons, ih]
    · rw [pilotInsertFrom, List.length_cons, List.length_cons, ih]

/-- What the extraction finds behind the first `head.length` symbols. -/
theorem pilotExtractFrom_insert (data : List (Cplx R)) (map : List Bool) (dataIdx : ℕ)
    (head : List (Cplx R)) :
    pilotExtractFrom (head ++ pilotInsertFrom const data dataIdx map) head.length map
      = ((List.range' dataIdx (map.count false)).map fun n => data.getD n 0,
          List.replicate (map.count true) const.pilot) := by
  induction map generalizing dataIdx head with
  | nil => rfl
  | cons b map ih =>
    have hnext : ∀ (s : Cplx R) (idx : ℕ),
        pilotExtractFrom (head ++ s :: pilotInsertFrom const data idx map) (head.length + 1) map
          = ((List.range' idx (map.count false)).map fun n => data.getD n 0,
              List.replicate (map.count true) const.pilot) := by
      intro s idx
      have h := ih idx (head ++ [s])
      rw [List.append_assoc, List.singleton_append, List.length_append,
        List.length_singleton] at h
      exact h
    have hread : ∀ (s : Cplx R) rest, (head ++ s :: rest).getD head.length 0 = s := by
      intro s rest
      rw [List.getD_append_right _ _ _ _ le_rfl, Nat.sub_self]
      rfl
    cases b
    · rw [pilotInsertFrom, pilotExtractFrom]
      rw [hnext, hread, List.count_cons_self, List.count_cons_of_ne (by decide),
        List.range'_succ]
      rfl
    · rw [pilotInsertFrom, pilotExtractFrom]
      rw [hnext, hread, List.count_cons_self, List.count_cons_of_ne (by decide),
        List.replicate_succ]

/-- **Extraction gives back payload and pilots.** -/
theorem pilotExtract_insert {data : List (Cplx R)} {lay : VlsnrLayout}
    (hdata : data.length = lay.numData) (hcount : lay.isPilot.count false = lay.numData) :
    pilotExtract (pilotInsert const data lay) lay
      = (data, List.replicate (lay.isPilot.count true) const.pilot) := by
  have h := pilotExtractFrom_insert const data lay.isPilot 0 []
  rw [List.nil_append, List.length_nil, hcount, ← List.range_eq_range'] at h
  rw [pilotExtract, pilotInsert, h]
  congr 1
  apply list_ext_getD 0
  · rw [List.length_map, List.length_range, hdata]
  · intro j hj
    rw [List.length_map, List.length_range] at hj
    rw [getD_map_range, if_pos hj]

/-! ### Mapping and demapping -/

/-- Two entries for every index are one list over twice as many indices. -/
theorem interleavePairs_eq {α : Type*} (h : ℕ → α) (n : ℕ) :
    interleavePairs (fun k => h (2 * k)) (fun k => h (2 * k + 1)) n
      = (List.range (2 * n)).map h := by
  induction n with
  | zero => rfl
  | succ n ih =>
    rw [interleavePairs, List.range_succ, List.flatMap_append, ← interleavePairs, ih,
      Nat.mul_succ, List.range_succ, List.range_succ]
    simp

/-- A bit as an amplitude. -/
def bitAmp (b : Bool) : R := if b then -const.half else const.half

theorem modSpreadBits_eq (bits : List Bool) (n : ℕ) :
    modSpreadBits bits n = (List.range (2 * n)).map fun i => bits.getD (i / 2) false := by
  rw [← interleavePairs_eq, modSpreadBits]
  congr 1
  · funext k
    rw [show 2 * k / 2 = k by omega]
  · funext k
    rw [show (2 * k + 1) / 2 = k by omega]

variable [IsStrictOrderedRing R]

omit [IsStrictOrderedRing R] in
/-- The decision metric of a symbol, at the parity it was mapped with. -/
theorem pi2bpskSymbol_metric (n : ℕ) (b : Bool) :
    (if n % 2 = 0 then (pi2bpskSymbol const n b).i + (pi2bpskSymbol const n b).q
      else (pi2bpskSymbol const n b).q - (pi2bpskSymbol const n b).i)
      = 2 * bitAmp const b := by
  by_cases hn : n % 2 = 0
  · rw [if_pos hn, pi2bpskSymbol, if_pos hn, bitAmp]
    ring
  · rw [if_neg hn, pi2bpskSymbol, if_neg hn, bitAmp]
    cases b
    · simp only [Bool.false_eq_true, if_false]
      ring
    · simp only [if_true]
      ring

omit [IsStrictOrderedRing R] in
theorem demodPi2bpsk_mod (bits : List Bool) (len : ℕ) (noiseVar : R) :
    demodPi2bpsk const (modPi2bpsk const bits len) len noiseVar
      = (List.range len).map fun n =>
          const.two / noiseVar * (2 * bitAmp const (bits.getD n false)) := by
  rw [demodPi2bpsk]
  apply List.map_congr_left
  intro n hn
  rw [List.mem_range] at hn
  dsimp only
  rw [modPi2bpsk, getD_map_range, if_pos hn, ← pi2bpskSymbol_metric const n]
  split
  · rfl
  · rfl

omit [IsStrictOrderedRing R] in
theorem demodQpsk_mod (bits : List Bool) (numSymbols : ℕ) (noiseVar : R) :
    demodQpsk const (modQpsk const bits numSymbols) numSymbols noiseVar
      = (List.range (2 * numSymbols)).map fun n =>
          2 * const.half / noiseVar * bitAmp const (bits.getD n false) := by
  rw [← interleavePairs_eq, demodQpsk, interleavePairs, interleavePairs]
  apply List.flatMap_congr
  intro n hn
  rw [List.mem_range] at hn
  rw [modQpsk, getD_map_range, if_pos hn]
  rfl

/-- The geometry of the mappings. -/
theorem modcod_mapping : ∀ mc ∈ vlsnrModcodTable,
    (mc.modulation = .qpsk → txCodedBits mc % 2 = 0 ∧ mc.hasSpread = false) ∧
      layoutData mc = if mc.modulation = .qpsk then txCodedBits mc / 2
        else if mc.hasSpread then txCodedBits mc * 2 else txCodedBits mc := by
  decide

omit [IsStrictOrderedRing R] in
theorem plSymbols_length {mc : Modcod} (hmc : mc ∈ vlsnrModcodTable) (bits : List Bool) :
    (plSymbols const mc bits).length = layoutData mc := by
  rw [(modcod_mapping mc hmc).2, plSymbols]
  split
  · rw [modQpsk, List.length_map, List.length_range]
  · split
    · rw [modPi2bpsk, List.length_map, List.length_range]
    · rw [modPi2bpsk, List.length_map, List.length_range]

/-- **Every mapping is undone.**  The LLRs are the amplitudes of the bits, all scaled by the same
positive factor, of at least twice the smaller constant over the noise variance. -/
theorem plLlr_symbols {mc : Modcod} (hmc : mc ∈ vlsnrModcodTable) (bits : List Bool)
    {noiseVar : R} (hnoise : 0 < noiseVar) :
    ∃ scale > 0, 2 * min const.half const.two ≤ scale * noiseVar ∧
      plLlr const mc (plSymbols const mc bits) noiseVar
        = (List.range (txCodedBits mc)).map fun i => scale * bitAmp const (bits.getD i false) := by
  obtain ⟨hqpsk, hdata⟩ := modcod_mapping mc hmc
  have hlen := plSymbols_length const hmc bits
  have htwo : 0 < const.two / noiseVar := div_pos const.two_pos hnoise
  have hscale : const.two / noiseVar * noiseVar = const.two := div_mul_cancel₀ _ hnoise.ne'
  have hmin := min_le_right const.half const.two
  rw [plLlr]
  rw [hlen, hdata, plSymbols]
  by_cases hmod : mc.modulation = .qpsk
  · obtain ⟨heven, hspread⟩ := hqpsk hmod
    have hdouble : 2 * (txCodedBits mc / 2) = txCodedBits mc := by omega
    refine ⟨2 * const.half / noiseVar,
      div_pos (mul_pos zero_lt_two const.half_pos) hnoise, ?_, ?_⟩
    · rw [div_mul_cancel₀ _ hnoise.ne']
      exact mul_le_mul_of_nonneg_left (min_le_left _ _) zero_le_two
    rw [if_pos hmod, if_pos hmod, if_pos hmod, hspread, demodQpsk_mod, hdouble]
    rw [if_neg (by decide), if_pos hmod, List.take_of_length_le]
    rw [List.length_map, List.length_range]
  rw [if_neg hmod, if_neg hmod, if_neg hmod]
  by_cases hspread : mc.hasSpread = true
  · -- both copies of a bit carry the same metric
    refine ⟨const.two / noiseVar * 2 + const.two / noiseVar * 2, by linarith, ?_, ?_⟩
    · have := const.two_pos
      linarith
    rw [if_pos hspread, if_pos hspread, if_pos hspread, demodPi2bpsk_mod, demodDespreadLlr,
      Nat.mul_div_cancel _ zero_lt_two]
    apply List.map_congr_left
    intro i hi
    rw [List.mem_range] at hi
    rw [getD_map_range, if_pos (by omega), getD_map_range, if_pos (by omega), modSpreadBits_eq,
      getD_map_range, if_pos (by omega), getD_map_range, if_pos (by omega),
      show 2 * i / 2 = i by omega, show (2 * i + 1) / 2 = i by omega]
    ring
  · refine ⟨const.two / noiseVar * 2, by linarith, by linarith, ?_⟩
    rw [if_neg hspread, if_neg hspread, if_neg hspread, if_neg hmod, demodPi2bpsk_mod,
      List.take_of_length_le (by rw [List.length_map, List.length_range])]
    apply List.map_congr_left
    intro i _
    rw [mul_assoc]

/-! ### The chain -/

omit [IsStrictOrderedRing R] in
/-- The modulator's check of the symbol count passes. -/
theorem plTransmit_eq {mc : Modcod} (hmc : mc ∈ vlsnrModcodTable) (goldIdx : ℕ)
    (bits : List Bool) :
    plTransmit const mc goldIdx bits
      = some (scrambleField
          (scramblerSeek (scramblerReset (scramblerInit goldIdx)) vlsnrHdrLen)
          (pilotInsert const (plSymbols const mc bits) (buildLayout mc)) (buildLayout mc).isPilot
          (mc.modulation = .qpsk)).1 := by
  have hlen : (plSymbols const mc bits).length = (buildLayout mc).numData :=
    plSymbols_length const hmc bits
  rw [plTransmit]
  dsimp only
  rw [if_neg (not_not.mpr hlen)]

/-- **The data-field chains are inverse.** -/
theorem plChain_inverse (mc : Modcod) (hmc : mc ∈ vlsnrModcodTable) (goldIdx : ℕ)
    (bits : List Bool) (noiseVar : R) (hnoise : 0 < noiseVar) :
    ∃ field, plTransmit const mc goldIdx bits = some field ∧
      field.length = (buildLayout mc).fieldLen ∧
      let r := plReceive const mc goldIdx noiseVar field
      r.1.length = txCodedBits mc ∧
        (∀ i < txCodedBits mc,
          (0 < r.1.getD i 0 ↔ bits.getD i false = false) ∧
            (r.1.getD i 0 < 0 ↔ bits.getD i false = true)) ∧
        r.2.length = (buildLayout mc).numPilot ∧ ∀ p ∈ r.2, p = const.pilot := by
  obtain ⟨hcount, hpilots, hmap, -⟩ := modcod_layout mc hmc
  obtain ⟨scale, hscale, -, hllr⟩ := plLlr_symbols const hmc bits hnoise
  refine ⟨_, plTransmit_eq const hmc goldIdx bits, ?_, ?_⟩
  · rw [scrambleField_length, pilotInsert, pilotInsertFrom_length, hmap]
  dsimp only
  rw [plReceive]
  dsimp only
  rw [descrambleField_scrambleField, pilotExtract_insert const (plSymbols_length const hmc bits)
    hcount]
  dsimp only
  rw [hllr]
  refine ⟨by rw [List.length_map, List.length_range], fun i hi => ?_,
    by rw [List.length_replicate, hpilots], fun p hp => (List.mem_replicate.mp hp).2⟩
  · rw [getD_map_range, if_pos hi, bitAmp]
    have hpos := mul_pos hscale const.half_pos
    cases bits.getD i false
    · simp only [Bool.false_eq_true, if_false, iff_true, iff_false]
      exact ⟨hpos, hpos.le.not_gt⟩
    · simp only [if_true, reduceCtorEq, iff_true, iff_false, mul_neg]
      exact ⟨not_lt.mpr (neg_nonpos.mpr hpos.le), neg_lt_zero.mpr hpos⟩

end

/-- A spread short frame of ones, with the exact constants. -/
theorem plChain_inverse_ones :
    ∃ field, plTransmit Sqrt2.exact vlsnrModcodTable[4] 0 (List.replicate 15390 true) = some field ∧
      field.length = (buildLayout vlsnrModcodTable[4]).fieldLen ∧
      let r := plReceive Sqrt2.exact vlsnrModcodTable[4] 0 1 field
      r.1.length = txCodedBits vlsnrModcodTable[4] ∧
        (∀ i < txCodedBits vlsnrModcodTable[4],
          (0 < r.1.getD i 0 ↔ (List.replicate 15390 true).getD i false = false) ∧
            (r.1.getD i 0 < 0 ↔ (List.replicate 15390 true).getD i false = true)) ∧
        r.2.length = (buildLayout vlsnrModcodTable[4]).numPilot ∧
          ∀ p ∈ r.2, p = Sqrt2.exact.pilot :=
  plChain_inverse Sqrt2.exact vlsnrModcodTable[4] (List.getElem_mem _) 0
    (List.replicate 15390 true) 1 one_pos

end OpenVlsnr
