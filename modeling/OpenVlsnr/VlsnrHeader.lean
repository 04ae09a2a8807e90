import OpenVlsnr.DelayLine
import OpenVlsnr.Demodulator
import OpenVlsnr.SyncFft

/-!
# The search for the VL-SNR header

The Walsh-Hadamard pattern of `vlsnr_header_gen.c`, its reference tables, and
`dvbs2x_vlsnr_header_sync_mode`, which looks for the pattern of each MODCOD with one transform of
the input and two for each MODCOD.

The tables hold what the search would compute on the fly (`SyncReach.valid`), so either way the
reference is the same (`referenceFft_eq`); the transforms are long enough that nothing wraps around,
and behind the length of the pattern `work` is the direct correlation (`syncWork_direct`).  The
energy slides along with it (`syncEnergy_window`).
-/

namespace OpenVlsnr

open Finset Radix2

/-! ### The pattern -/

abbrev vlsnrRows : ℕ := 16
abbrev vlsnrCols : ℕ := 56
abbrev vlsnrNumModcods : ℕ := 9

/-- `vlsnr_base_matrix`. -/
def vlsnrBaseMatrix : List (List Byte) :=
  [[0xFB, 0xF2, 0x3E, 0x83, 0x7F, 0x9B, 0xC4],
    [0x98, 0x70, 0x8E, 0x0B, 0x39, 0x34, 0x5E],
    [0xF6, 0xA2, 0xC9, 0xFE, 0x1B, 0x17, 0x37],
    [0x84, 0x18, 0xD9, 0x5A, 0x6F, 0x99, 0x7A],
    [0x7B, 0x7D, 0x7B, 0x3E, 0x9F, 0xC9, 0xEA],
    [0x5E, 0x78, 0xBA, 0x03, 0xA6, 0xD5, 0x1A],
    [0x27, 0x9C, 0xC2, 0x65, 0x43, 0xEC, 0xD0],
    [0x34, 0x2B, 0x04, 0x98, 0xBF, 0x3D, 0x7D],
    [0xAD, 0xD0, 0x36, 0xE9, 0xD5, 0x31, 0x2F],
    [0x10, 0x61, 0xC6, 0xDF, 0x82, 0x62, 0x37],
    [0x72, 0xD3, 0xE0, 0x90, 0x73, 0x84, 0xC7],
    [0x3B, 0xD5, 0xAC, 0xEE, 0x25, 0xE2, 0xC9],
    [0x59, 0x08, 0x7D, 0x82, 0x61, 0x5A, 0xDA],
    [0xE9, 0xAF, 0x01, 0x72, 0xCF, 0x9D, 0xA7],
    [0x3F, 0x48, 0x35, 0xA4, 0x06, 0x3F, 0x07],
    [0x23, 0xC9, 0xAE, 0xEC, 0xF2, 0xED, 0x41]]

/-- `vlsnr_wh_signs`. -/
def vlsnrWhSigns : List (List ℤ) :=
  [[1, 1, 1, 1, 1, 1, 1, 1, 1, 1, 1, 1, 1, 1, 1, 1],
    [1, -1, 1, -1, 1, -1, 1, -1, 1, -1, 1, -1, 1, -1, 1, -1],
    [1, 1, -1, -1, 1, 1, -1, -1, 1, 1, -1, -1, 1, 1, -1, -1],
    [1, -1, -1, 1, 1, -1, -1, 1, 1, -1, -1, 1, 1, -1, -1, 1],
    [1, 1, 1, 1, -1, -1, -1, -1, 1, 1, 1, 1, -1, -1, -1, -1],
    [1, -1, -1, 1, -1, 1, 1, -1, 1, -1, -1, 1, -1, 1, 1, -1],
    [1, 1, -1, -1, 1, 1, -1, -1, -1, -1, 1, 1, -1, -1, 1, 1],
    [1, -1, -1, 1, 1, -1, -1, 1, -1, 1, 1, -1, -1, 1, 1, -1],
    [1, 1, 1, 1, -1, -1, -1, -1, -1, -1, -1, -1, 1, 1, 1, 1],
    [1, 1, -1, -1, -1, -1, 1, 1, 1, 1, -1, -1, -1, -1, 1, 1],
    [1, -1, 1, -1, -1, 1, -1, 1, 1, -1, 1, -1, -1, 1, -1, 1],
    [-1, -1, -1, -1, -1, -1, -1, -1, 1, 1, 1, 1, 1, 1, 1, 1],
    [1, -1, 1, -1, 1, -1, 1, -1, -1, 1, -1, 1, -1, 1, -1, 1],
    [1, -1, 1, -1, -1, 1, -1, 1, -1, 1, -1, 1, 1, -1, 1, -1],
    [1, 1, -1, -1, -1, -1, 1, 1, -1, -1, 1, 1, 1, 1, -1, -1],
    [1, -1, -1, 1, -1, 1, 1, -1, -1, 1, 1, -1, 1, -1, -1, 1]]

/-- `modcod_to_annex_i`. -/
def modcodToAnnexI : List ℕ := [0, 1, 2, 3, 4, 5, 9, 10, 11]

/-- `vlsnr_generate_pattern`. -/
def vlsnrGeneratePattern (annexIdx : ℕ) : List ℤ :=
  let signs := vlsnrWhSigns.getD (if annexIdx ≥ 16 then 0 else annexIdx) []
  (List.range vlsnrRows).flatMap fun row =>
    (List.range vlsnrCols).map fun col =>
      let bit := ((vlsnrBaseMatrix.getD row []).getD (col / 8) 0).getLsbD (7 - col % 8)
      (if bit then -1 else 1) * signs.getD row 0

section
variable {R : Type*} [Field R] [LinearOrder R] (const : Sqrt2 R) (math : SyncMath R)

/-- `chips_to_symbols`. -/
def chipsToSymbols (chips : List ℤ) (len symOffset : ℕ) : List (Cplx R) :=
  (List.range len).map fun n => pi2bpskSymbol const (symOffset + n) (chips.getD n 0 < 0)

/-! ### The reference tables -/

/-- The static tables and flags behind the search. -/
structure SyncTables (R : Type*) where
  vlsnrRef : List (List (Cplx R))
  syncRef2048 : List (List (Cplx R))
  syncRef4096 : List (List (Cplx R))
  syncRef8192 : List (List (Cplx R))
  vlsnrRefInit : Bool
  syncFftRefInit : Bool

/-- A table as the program starts with it. -/
def zeroTable (cols : ℕ) : List (List (Cplx R)) :=
  List.replicate vlsnrNumModcods (List.replicate cols 0)

def SyncTables.start : SyncTables R :=
  ⟨zeroTable vlsnrWhLen, zeroTable 2048, zeroTable 4096, zeroTable 8192, false, false⟩

/-- What `do_sync_init` fills `vlsnr_ref` with. -/
def vlsnrReferences : List (List (Cplx R)) :=
  (List.range vlsnrNumModcods).map fun mc =>
    chipsToSymbols const (vlsnrGeneratePattern (modcodToAnnexI.getD mc 0)) vlsnrWhLen 0

def doSyncInit (t : SyncTables R) : SyncTables R :=
  { t with vlsnrRef := vlsnrReferences const, vlsnrRefInit := true }

def Cplx.conj (s : Cplx R) : Cplx R := ⟨s.i, -s.q⟩

/-- The reference, reversed and conjugated, written to the start of `row`. -/
def loadReference (ref row : List (Cplx R)) : List (Cplx R) :=
  ((List.range vlsnrWhLen).map fun n => (ref.getD (vlsnrWhLen - 1 - n) 0).conj) ++
    row.drop vlsnrWhLen

/-- The transforms of one length. -/
def syncTable (fuel len : ℕ) (refs table : List (List (Cplx R))) :
    Option (List (List (Cplx R))) :=
  (List.range vlsnrNumModcods).mapM fun mc =>
    syncFft math fuel (loadReference (refs.getD mc []) (table.getD mc [])) len false

def syncFftReferenceInit (fuel : ℕ) (t : SyncTables R) : Option (SyncTables R) :=
  if t.syncFftRefInit then some t
  else do
    let ref2048 ← syncTable math fuel 2048 t.vlsnrRef t.syncRef2048
    let ref4096 ← syncTable math fuel 4096 t.vlsnrRef t.syncRef4096
    let ref8192 ← syncTable math fuel 8192 t.vlsnrRef t.syncRef8192
    some { t with
      syncRef2048 := ref2048
      syncRef4096 := ref4096
      syncRef8192 := ref8192
      syncFftRefInit := true }

/-- `dvbs2x_vlsnr_sync_init`, and the same lines at the start of the search. -/
def vlsnrSyncInit (fuel : ℕ) (t : SyncTables R) : Option (SyncTables R) :=
  syncFftReferenceInit math fuel (if t.vlsnrRefInit then t else doSyncInit const t)

def syncFftReference (t : SyncTables R) (fftLen modcod : ℕ) : Option (List (Cplx R)) :=
  if fftLen = 2048 then some (t.syncRef2048.getD modcod [])
  else if fftLen = 4096 then some (t.syncRef4096.getD modcod [])
  else if fftLen = 8192 then some (t.syncRef8192.getD modcod [])
  else none

/-- The reference transformed on the fly. -/
def flyReference (fuel : ℕ) (t : SyncTables R) (fftLen mc : ℕ) : Option (List (Cplx R)) :=
  syncFft math fuel (loadReference (t.vlsnrRef.getD mc []) (List.replicate fftLen 0)) fftLen false

/-- `reference_fft`. -/
def referenceFft (fuel : ℕ) (t : SyncTables R) (fftLen mc : ℕ) : Option (List (Cplx R)) :=
  match syncFftReference t fftLen mc with
  | some reference => some reference
  | none => flyReference math fuel t fftLen mc

/-! ### The correlations -/

/-- The loop that doubles `fft_len`; `none` is its `goto done`, which comes within 32 rounds. -/
def fftLenFrom (need : ℕ) : ℕ → ℕ → Option ℕ
  | 0, _ => none
  | rounds + 1, fftLen =>
    if fftLen < need then
      if uintMax / 2 < fftLen then none else fftLenFrom need rounds (fftLen <<< 1)
    else some fftLen

def fftLenFor (len : ℕ) : Option ℕ :=
  fftLenFrom (len + vlsnrWhLen - 1) 33 1

def symbolPower (s : Cplx R) : R := s.i * s.i + s.q * s.q

/-- `energy[pos]`. -/
def syncEnergy (symbols : List (Cplx R)) : ℕ → R
  | 0 => (List.range vlsnrWhLen).foldl (fun e n => e + symbolPower (symbols.getD n 0)) 0
  | pos + 1 => syncEnergy symbols pos - symbolPower (symbols.getD pos 0) +
      symbolPower (symbols.getD (pos + 1 + vlsnrWhLen - 1) 0)

/-- `energy`, and `work` as each MODCOD of the search leaves it. -/
structure SyncArrays (R : Type*) where
  energy : List R
  work : List (ℕ × List (Cplx R))

/-- `work` of MODCOD `mc`. -/
def syncWork (fuel : ℕ) (t : SyncTables R) (inputFft : List (Cplx R)) (fftLen mc : ℕ) :
    Option (ℕ × List (Cplx R)) := do
  let reference ← referenceFft math fuel t fftLen mc
  let work ← syncFft math fuel
    ((List.range fftLen).map fun n => inputFft.getD n 0 * reference.getD n 0) fftLen true
  some (mc, work)

/-- `mc_first` up to `mc_last`. -/
def searchedModcods (preferredModcod : ℕ) : List ℕ :=
  if 1 ≤ preferredModcod ∧ preferredModcod ≤ vlsnrNumModcods then [preferredModcod - 1]
  else List.range vlsnrNumModcods

/-- The arrays of the search, where `allocated` says whether there is memory for them; `some none`
is a `goto done` in front of them. -/
def syncArrays (fuel : ℕ) (t : SyncTables R) (symbols : List (Cplx R))
    (len preferredModcod : ℕ) (allocated : Bool) : Option (Option (SyncArrays R)) :=
  if len < vlsnrWhLen then some none
  else if uintMax - vlsnrWhLen + 1 < len then some none
  else
    match fftLenFor len with
    | none => some none
    | some fftLen =>
      if !allocated then some none
      else do
        let inputFft ← syncFft math fuel
          ((List.range fftLen).map fun n => if n < len then symbols.getD n 0 else 0) fftLen false
        let work ← (searchedModcods preferredModcod).mapM (syncWork math fuel t inputFft fftLen)
        some (some
          { energy := (List.range (len - vlsnrWhLen + 1)).map (syncEnergy symbols)
            work := work })

/-- The search up to its arrays. -/
def syncCorrelations (fuel : ℕ) (t : SyncTables R) (symbols : List (Cplx R))
    (len preferredModcod : ℕ) (allocated : Bool) :
    Option (SyncTables R × Option (SyncArrays R)) := do
  let t ← vlsnrSyncInit const math fuel t
  let arrays ← syncArrays math fuel t symbols len preferredModcod allocated
  some (t, arrays)

/-! ### The decision -/

def syncNorm (energy : R) : R := math.sqrt ((vlsnrWhLen : ℕ) * energy)

/-- `candidate_score` and `candidate_offset` behind position `pos`. -/
def candidateRound (energy : List R) (work : List (Cplx R)) (s : R × ℕ) (pos : ℕ) : R × ℕ :=
  if energy.getD pos 0 ≤ 0 then s
  else
    let score := math.sqrt (symbolPower (work.getD (pos + vlsnrWhLen - 1) 0)) /
      syncNorm math (energy.getD pos 0)
    if s.1 < score then (score, pos) else s

/-- `seg_mag`. -/
def segmentMag (symbols ref : List (Cplx R)) (segLen pos : ℕ) : R :=
  (List.range ((vlsnrWhLen + segLen - 1) / segLen)).foldl
    (fun segMag k =>
      let segStart := k * segLen
      let segEnd := min (segStart + segLen) vlsnrWhLen
      let s := (List.range' segStart (segEnd - segStart)).foldl
        (fun (s : Cplx R) n =>
          let r := symbols.getD (pos + n) 0
          let rf := ref.getD n 0
          ⟨s.i + (r.i * rf.i + r.q * rf.q), s.q + (r.q * rf.i - r.i * rf.q)⟩) 0
      segMag + math.sqrt (symbolPower s)) 0

/-- The round of one MODCOD in the second loop. -/
def bestRound (t : SyncTables R) (symbols : List (Cplx R)) (energy : List R) (segLen : ℕ)
    (best : HeaderSync R) (w : ℕ × List (Cplx R)) : HeaderSync R :=
  let pos := ((List.range energy.length).foldl (candidateRound math energy w.2) (0, 0)).2
  if energy.getD pos 0 ≤ 0 then best
  else
    let corr := segmentMag math symbols (t.vlsnrRef.getD w.1 []) segLen pos /
      syncNorm math (energy.getD pos 0)
    if best.conf < corr then ⟨corr, pos, w.1 + 1⟩ else best

/-- `dvbs2x_vlsnr_header_sync_mode`: the tables behind it and its result. -/
def vlsnrHeaderSyncMode (fuel : ℕ) (t : SyncTables R) (symbols : List (Cplx R))
    (len segLen preferredModcod : ℕ) (allocated : Bool) :
    Option (SyncTables R × HeaderSync R) := do
  let segLen := if segLen = 0 ∨ vlsnrWhLen < segLen then vlsnrWhLen else segLen
  let bestModcod :=
    if 1 ≤ preferredModcod ∧ preferredModcod ≤ vlsnrNumModcods then preferredModcod else 1
  let start : HeaderSync R := ⟨-1, 0, bestModcod⟩
  let (t, arrays) ← syncCorrelations const math fuel t symbols len preferredModcod allocated
  match arrays with
  | none => some (t, start)
  | some arrays =>
    some (t, arrays.work.foldl (bestRound math t symbols arrays.energy segLen) start)

/-- The tables that calls of the library lead to. -/
inductive SyncReach : SyncTables R → Prop
  | start : SyncReach .start
  | init {fuel : ℕ} {t t' : SyncTables R} : SyncReach t →
      vlsnrSyncInit const math fuel t = some t' → SyncReach t'
  | search {fuel : ℕ} {t t' : SyncTables R} {symbols : List (Cplx R)}
      {len segLen preferredModcod : ℕ} {allocated : Bool} {best : HeaderSync R} : SyncReach t →
      vlsnrHeaderSyncMode const math fuel t symbols len segLen preferredModcod allocated
        = some (t', best) → SyncReach t'

/-! ### The direct computation -/

/-- The correlation of the symbols from `pos` on with a reference. -/
def directCorrelation (symbols ref : List (Cplx R)) (pos : ℕ) : Cplx R :=
  ∑ n ∈ range vlsnrWhLen, symbols.getD (pos + n) 0 * (ref.getD n 0).conj

/-- The energy of the symbols from `pos` on. -/
def windowEnergy (symbols : List (Cplx R)) (pos : ℕ) : R :=
  ∑ n ∈ range vlsnrWhLen, symbolPower (symbols.getD (pos + n) 0)

/-- Arrays that hold, for the given MODCODs and every position, what the direct computation
gives. -/
structure SyncArrays.Direct (arrays : SyncArrays R) (symbols : List (Cplx R))
    (refs : List (List (Cplx R))) (len : ℕ) (mcs : List ℕ) : Prop where
  modcods : arrays.work.map Prod.fst = mcs
  work : ∀ w ∈ arrays.work, ∀ pos ≤ len - vlsnrWhLen,
    w.2.getD (pos + vlsnrWhLen - 1) 0 = directCorrelation symbols (refs.getD w.1 []) pos
  energy : ∀ pos ≤ len - vlsnrWhLen, arrays.energy.getD pos 0 = windowEnergy symbols pos

end

/-! ### The length of the transform -/

/-- The doubling loop at `2 ^ k`: it ends with the first power of two that is long enough, or with
its guard where that would be `2 ^ 32` or more. -/
theorem fftLenFrom_spec (need rounds : ℕ) : ∀ {k : ℕ}, k + rounds = 33 → k ≤ 31 →
    (need ≤ 2 ^ 31 → ∃ e ≤ 31, fftLenFrom need rounds (2 ^ k) = some (2 ^ e) ∧ need ≤ 2 ^ e ∧
      (e = k ∨ 2 ^ e < 2 * need)) ∧
    (2 ^ 31 < need → fftLenFrom need rounds (2 ^ k) = none) := by
  induction rounds with
  | zero => exact fun hsum hk => absurd hk (by omega)
  | succ rounds ih =>
    intro k hsum hk
    rw [fftLenFrom]
    by_cases hshort : 2 ^ k < need
    · rw [if_pos hshort]
      rcases Nat.lt_or_eq_of_le hk with hlt | rfl
      · have hpow : 2 ^ k ≤ 2 ^ 30 := Nat.pow_le_pow_right two_pos (by omega)
        have hguard : ¬ uintMax / 2 < 2 ^ k := by
          have hmax : uintMax / 2 = 2 ^ 31 - 1 := rfl
          omega
        rw [if_neg hguard, Nat.shiftLeft_eq, ← pow_add]
        obtain ⟨hfit, hnone⟩ := ih (k := k + 1) (by omega) (by omega)
        refine ⟨fun hneed => ?_, hnone⟩
        obtain ⟨e, he, hrun, hle, hfirst⟩ := hfit hneed
        refine ⟨e, he, hrun, hle, Or.inr ?_⟩
        rcases hfirst with rfl | hlt
        · rw [pow_succ]
          omega
        · exact hlt
      · exact ⟨fun hneed => absurd hshort (not_lt.mpr hneed), fun _ => if_pos (by decide)⟩
    · rw [if_neg hshort]
      refine ⟨fun _ => ⟨k, hk, rfl, not_lt.mp hshort, Or.inl rfl⟩, fun hneed => ?_⟩
      have hpow : 2 ^ k ≤ 2 ^ 31 := Nat.pow_le_pow_right two_pos hk
      omega

/-- The transform of up to `2 ^ 30 - 895` symbols has room for the pattern behind them. -/
theorem fftLenFor_fit {len : ℕ} (hlen : len ≤ 2 ^ 30 - 895) :
    ∃ k ≤ 30, fftLenFor len = some (2 ^ k) ∧ len + vlsnrWhLen ≤ 2 ^ k + 1 := by
  have hwh : vlsnrWhLen = 896 := rfl
  obtain ⟨e, -, hrun, hneed, hfirst⟩ :=
    (fftLenFrom_spec (len + vlsnrWhLen - 1) 33 (k := 0) rfl (by omega)).1 (by omega)
  refine ⟨e, ?_, hrun, by omega⟩
  rcases hfirst with rfl | hlt
  · omega
  · by_contra hlong
    have hpow : 2 ^ 31 ≤ 2 ^ e := Nat.pow_le_pow_right two_pos (by omega)
    omega

theorem fftLenFor_tooLong {len : ℕ} (hlen : 2 ^ 31 - 895 < len) : fftLenFor len = none := by
  have hwh : vlsnrWhLen = 896 := rfl
  exact (fftLenFrom_spec (len + vlsnrWhLen - 1) 33 (k := 0) rfl (by omega)).2 (by omega)

/-! ### The energy -/

section
variable {R : Type*} [Field R]

theorem windowEnergy_succ (symbols : List (Cplx R)) (pos : ℕ) :
    windowEnergy symbols (pos + 1) = windowEnergy symbols pos - symbolPower (symbols.getD pos 0) +
      symbolPower (symbols.getD (pos + 1 + vlsnrWhLen - 1) 0) := by
  have hlast : pos + 1 + vlsnrWhLen - 1 = pos + vlsnrWhLen := by omega
  have hshift : windowEnergy symbols (pos + 1)
      = ∑ n ∈ range vlsnrWhLen, symbolPower (symbols.getD (pos + (n + 1)) 0) :=
    sum_congr rfl fun n _ => by rw [Nat.add_right_comm, Nat.add_assoc]
  -- the window and the symbol behind it, split off at either end
  have hboth := (sum_range_succ (fun n => symbolPower (symbols.getD (pos + n) 0))
    vlsnrWhLen).symm.trans (sum_range_succ' _ vlsnrWhLen)
  rw [hshift, hlast, windowEnergy]
  rw [Nat.add_zero] at hboth
  linear_combination -hboth

/-- **The energy slides** with the window. -/
theorem syncEnergy_window (symbols : List (Cplx R)) (pos : ℕ) :
    syncEnergy symbols pos = windowEnergy symbols pos := by
  induction pos with
  | zero =>
    rw [syncEnergy, DelayLine.foldl_add_eq_sum, zero_add]
    exact sum_congr rfl fun n _ => by rw [Nat.zero_add]
  | succ pos ih => rw [syncEnergy, windowEnergy_succ, ih]

end

/-! ### Lists of results -/

theorem mapM_eq_map {α β : Type*} {f : α → Option β} {g : α → β} {l : List α}
    (h : ∀ a ∈ l, f a = some (g a)) : l.mapM f = some (l.map g) := by
  induction l with
  | nil => rfl
  | cons a l ih =>
    rw [List.mapM_cons, h a List.mem_cons_self, ih fun b hb => h b (List.mem_cons_of_mem _ hb)]
    rfl

theorem getD_of_mapM {α β : Type*} {f : α → Option β} (x : α) (y : β) {l : List α} :
    ∀ {l' : List β}, l.mapM f = some l' → ∀ i < l.length, f (l.getD i x) = some (l'.getD i y) := by
  induction l with
  | nil => exact fun _ i hi => absurd hi (Nat.not_lt_zero i)
  | cons a l ih =>
    intro l' h i hi
    rw [List.mapM_cons] at h
    obtain ⟨b, hb, h⟩ := Option.bind_eq_some_iff.mp h
    obtain ⟨bs, hbs, h⟩ := Option.bind_eq_some_iff.mp h
    obtain rfl : b :: bs = l' := Option.some.inj h
    cases i with
    | zero => exact hb
    | succ i => exact ih hbs i (Nat.lt_of_succ_lt_succ hi)

/-! ### The tables -/

section
variable {R : Type*} [Field R]

theorem zeroTable_getD {cols mc : ℕ} (hmc : mc < vlsnrNumModcods) :
    (zeroTable cols : List (List (Cplx R))).getD mc [] = List.replicate cols 0 := by
  rw [zeroTable, List.getD_eq_getElem?_getD, List.getElem?_replicate, if_pos hmc]
  rfl

theorem loadReference_length (ref : List (Cplx R)) {row : List (Cplx R)}
    (hrow : vlsnrWhLen ≤ row.length) : (loadReference ref row).length = row.length := by
  rw [loadReference, List.length_append, List.length_map, List.length_range, List.length_drop]
  omega

/-- A zero row behind the reference. -/
theorem loadReference_getD (ref : List (Cplx R)) (len n : ℕ) :
    (loadReference ref (List.replicate len 0)).getD n 0
      = if n < vlsnrWhLen then (ref.getD (vlsnrWhLen - 1 - n) 0).conj else 0 := by
  rw [loadReference]
  by_cases hn : n < vlsnrWhLen
  · rw [List.getD_append _ _ _ _ (by rw [List.length_map, List.length_range]; exact hn),
      getD_map_range, if_pos hn]
  · rw [List.getD_append_right _ _ _ _ (by rw [List.length_map, List.length_range]; omega),
      List.drop_replicate, getD_replicate_self, if_neg hn]

end

/-- A table with the transform of every reference, as the search would compute it. -/
def HoldsTransforms (len : ℕ) (refs table : List (List (Cplx ℝ))) : Prop :=
  ∀ mc < vlsnrNumModcods, ∀ fuel, len + 31 ≤ fuel →
    syncFft SyncMath.exact fuel (loadReference (refs.getD mc []) (List.replicate len 0)) len false
      = some (table.getD mc [])

/-- What the flags say about the tables. -/
structure SyncTables.Valid (const : Sqrt2 ℝ) (t : SyncTables ℝ) : Prop where
  ref : t.vlsnrRefInit = true → t.vlsnrRef = vlsnrReferences const
  cleared : t.syncFftRefInit = false →
    t.syncRef2048 = zeroTable 2048 ∧ t.syncRef4096 = zeroTable 4096 ∧
      t.syncRef8192 = zeroTable 8192
  filled : t.syncFftRefInit = true → t.vlsnrRefInit = true ∧
    HoldsTransforms 2048 t.vlsnrRef t.syncRef2048 ∧
    HoldsTransforms 4096 t.vlsnrRef t.syncRef4096 ∧
    HoldsTransforms 8192 t.vlsnrRef t.syncRef8192

theorem SyncTables.Valid.start (const : Sqrt2 ℝ) :
    (SyncTables.start : SyncTables ℝ).Valid const where
  ref := fun h => absurd h (by decide)
  cleared := fun _ => ⟨rfl, rfl, rfl⟩
  filled := fun h => absurd h (by decide)

/-- A table that is filled from zeros. -/
theorem syncTable_holds {k fuel : ℕ} (hk : k ≤ 30) (hwh : vlsnrWhLen ≤ 2 ^ k)
    {refs table : List (List (Cplx ℝ))}
    (h : syncTable SyncMath.exact fuel (2 ^ k) refs (zeroTable (2 ^ k)) = some table) :
    HoldsTransforms (2 ^ k) refs table := by
  intro mc hmc fuel' hfuel'
  have hlen : (loadReference (refs.getD mc []) (List.replicate (2 ^ k) 0)).length = 2 ^ k := by
    rw [loadReference_length _ (by rwa [List.length_replicate]), List.length_replicate]
  have hget : (List.range vlsnrNumModcods).getD mc 0 = mc := by
    rw [List.getD_eq_getElem?_getD, List.getElem?_range hmc]
    rfl
  have htable := getD_of_mapM 0 [] h mc (by rwa [List.length_range])
  rw [hget, zeroTable_getD hmc] at htable
  obtain ⟨d, hrun, -⟩ := syncFft_forward hk hlen hfuel'
  rw [hrun, ← syncFft_mono (le_max_left fuel' fuel) hrun,
    syncFft_mono (le_max_right fuel' fuel) htable]

theorem SyncTables.Valid.init_filled {const : Sqrt2 ℝ} {t : SyncTables ℝ} (h : t.Valid const)
    (hfilled : t.syncFftRefInit = true) (fuel : ℕ) :
    vlsnrSyncInit const SyncMath.exact fuel t = some t := by
  rw [vlsnrSyncInit, if_pos (h.filled hfilled).1, syncFftReferenceInit, if_pos hfilled]

/-- The first initialisation starts from the references and from zeros. -/
theorem SyncTables.Valid.init_first {const : Sqrt2 ℝ} {t : SyncTables ℝ} (h : t.Valid const)
    (hfirst : t.syncFftRefInit = false) (fuel : ℕ) :
    vlsnrSyncInit const SyncMath.exact fuel t = (do
      let refs := vlsnrReferences const
      let ref2048 ← syncTable SyncMath.exact fuel 2048 refs (zeroTable 2048)
      let ref4096 ← syncTable SyncMath.exact fuel 4096 refs (zeroTable 4096)
      let ref8192 ← syncTable SyncMath.exact fuel 8192 refs (zeroTable 8192)
      some ⟨refs, ref2048, ref4096, ref8192, true, true⟩) := by
  obtain ⟨h2048, h4096, h8192⟩ := h.cleared hfirst
  rw [vlsnrSyncInit, syncFftReferenceInit]
  by_cases hflag : t.vlsnrRefInit = true
  · rw [if_pos hflag, if_neg (by simp [hfirst]), h2048, h4096, h8192, hflag, h.ref hflag]
  · rw [if_neg hflag, doSyncInit, if_neg (by simp [hfirst]), h2048, h4096, h8192]

/-- **The initialisation** keeps the tables right, and fills them. -/
theorem SyncTables.Valid.init {const : Sqrt2 ℝ} {t t' : SyncTables ℝ} (h : t.Valid const)
    {fuel : ℕ} (hinit : vlsnrSyncInit const SyncMath.exact fuel t = some t') :
    t'.Valid const ∧ t'.syncFftRefInit = true := by
  cases hfilled : t.syncFftRefInit with
  | true =>
    rw [h.init_filled hfilled] at hinit
    obtain rfl : t = t' := Option.some.inj hinit
    exact ⟨h, hfilled⟩
  | false =>
    rw [h.init_first hfilled] at hinit
    obtain ⟨ref2048, h2048, hinit⟩ := Option.bind_eq_some_iff.mp hinit
    obtain ⟨ref4096, h4096, hinit⟩ := Option.bind_eq_some_iff.mp hinit
    obtain ⟨ref8192, h8192, hinit⟩ := Option.bind_eq_some_iff.mp hinit
    obtain rfl := Option.some.inj hinit
    refine ⟨⟨fun _ => rfl, fun hno => absurd hno (by simp), fun _ => ⟨rfl, ?_, ?_, ?_⟩⟩, rfl⟩
    · exact syncTable_holds (k := 11) (by decide) (by decide) h2048
    · exact syncTable_holds (k := 12) (by decide) (by decide) h4096
    · exact syncTable_holds (k := 13) (by decide) (by decide) h8192

/-- A table is filled with rounds enough for its length. -/
theorem syncTable_returns {k : ℕ} (fuel : ℕ) (hk : k ≤ 30) (hwh : vlsnrWhLen ≤ 2 ^ k)
    (hfuel : 2 ^ k + 31 ≤ fuel) (refs : List (List (Cplx ℝ))) :
    ∃ table, syncTable SyncMath.exact fuel (2 ^ k) refs (zeroTable (2 ^ k)) = some table := by
  have hrow : ∀ mc, ∃ d, mc < vlsnrNumModcods → syncFft SyncMath.exact fuel
      (loadReference (refs.getD mc []) ((zeroTable (2 ^ k)).getD mc [])) (2 ^ k) false
      = some d := by
    intro mc
    by_cases hmc : mc < vlsnrNumModcods
    · have hlen : (loadReference (refs.getD mc [])
          ((zeroTable (2 ^ k)).getD mc [] : List (Cplx ℝ))).length = 2 ^ k := by
        rw [zeroTable_getD hmc, loadReference_length _ (by rwa [List.length_replicate]),
          List.length_replicate]
      obtain ⟨d, hrun, -⟩ := syncFft_forward hk hlen hfuel
      exact ⟨d, fun _ => hrun⟩
    · exact ⟨[], fun h => absurd h hmc⟩
  choose g hg using hrow
  exact ⟨_, mapM_eq_map fun mc hmc => hg mc (List.mem_range.mp hmc)⟩

/-- With rounds enough for the longest table, the initialisation returns. -/
theorem SyncTables.Valid.init_returns {const : Sqrt2 ℝ} {t : SyncTables ℝ} (h : t.Valid const)
    {fuel : ℕ} (hfuel : 8192 + 31 ≤ fuel) :
    ∃ t', vlsnrSyncInit const SyncMath.exact fuel t = some t' := by
  cases hfilled : t.syncFftRefInit with
  | true => exact ⟨t, h.init_filled hfilled fuel⟩
  | false =>
    obtain ⟨ref2048, h2048⟩ := syncTable_returns (k := 11) fuel (by decide) (by decide)
      (by omega) (vlsnrReferences const)
    obtain ⟨ref4096, h4096⟩ := syncTable_returns (k := 12) fuel (by decide) (by decide)
      (by omega) (vlsnrReferences const)
    obtain ⟨ref8192, h8192⟩ := syncTable_returns (k := 13) fuel (by decide) (by decide)
      (by omega) (vlsnrReferences const)
    refine ⟨⟨vlsnrReferences const, ref2048, ref4096, ref8192, true, true⟩, ?_⟩
    rw [h.init_first hfilled]
    refine Option.bind_eq_some_iff.mpr ⟨ref2048, h2048, Option.bind_eq_some_iff.mpr
      ⟨ref4096, h4096, Option.bind_eq_some_iff.mpr ⟨ref8192, h8192, rfl⟩⟩⟩

/-- Every call leaves the tables right. -/
theorem SyncReach.valid {const : Sqrt2 ℝ} {t : SyncTables ℝ}
    (h : SyncReach const SyncMath.exact t) : t.Valid const := by
  induction h with
  | start => exact .start const
  | init _ hinit ih => exact (ih.init hinit).1
  | search _ hsearch ih =>
    obtain ⟨⟨t₁, arrays⟩, hcorr, hrest⟩ := Option.bind_eq_some_iff.mp hsearch
    obtain ⟨t₂, hinit, hcorr⟩ := Option.bind_eq_some_iff.mp hcorr
    obtain ⟨arrays', -, hcorr⟩ := Option.bind_eq_some_iff.mp hcorr
    obtain ⟨rfl, rfl⟩ := Prod.mk.injEq .. ▸ Option.some.inj hcorr
    cases arrays' with
    | none =>
      obtain ⟨rfl, -⟩ := Prod.mk.injEq .. ▸ Option.some.inj hrest
      exact (ih.init hinit).1
    | some arrays =>
      obtain ⟨rfl, -⟩ := Prod.mk.injEq .. ▸ Option.some.inj hrest
      exact (ih.init hinit).1

/-- **The precomputed reference is the one computed on the fly.** -/
theorem SyncTables.Valid.same_reference {const : Sqrt2 ℝ} {t : SyncTables ℝ} (h : t.Valid const)
    (hfilled : t.syncFftRefInit = true) {fftLen mc fuel : ℕ} (hmc : mc < vlsnrNumModcods)
    (hfuel : fftLen + 31 ≤ fuel) {reference : List (Cplx ℝ)}
    (href : syncFftReference t fftLen mc = some reference) :
    flyReference SyncMath.exact fuel t fftLen mc = some reference := by
  obtain ⟨-, h2048, h4096, h8192⟩ := h.filled hfilled
  rw [syncFftReference] at href
  split at href
  case isTrue heq =>
    subst heq
    rw [← Option.some.inj href]
    exact h2048 mc hmc fuel hfuel
  case isFalse =>
    split at href
    case isTrue heq =>
      subst heq
      rw [← Option.some.inj href]
      exact h4096 mc hmc fuel hfuel
    case isFalse =>
      split at href
      case isTrue heq =>
        subst heq
        rw [← Option.some.inj href]
        exact h8192 mc hmc fuel hfuel
      case isFalse => exact absurd href (by simp)

theorem referenceFft_eq {const : Sqrt2 ℝ} {t : SyncTables ℝ} (h : t.Valid const)
    (hfilled : t.syncFftRefInit = true) {fftLen mc fuel : ℕ} (hmc : mc < vlsnrNumModcods)
    (hfuel : fftLen + 31 ≤ fuel) :
    referenceFft SyncMath.exact fuel t fftLen mc
      = flyReference SyncMath.exact fuel t fftLen mc := by
  rw [referenceFft]
  split
  · exact (h.same_reference hfilled hmc hfuel ‹_›).symm
  · rfl

/-! ### The correlations -/

/-- **One MODCOD of the search**: behind the length of the pattern, `work` is the direct
correlation. -/
theorem syncWork_direct {const : Sqrt2 ℝ} {t : SyncTables ℝ} (h : t.Valid const)
    (hfilled : t.syncFftRefInit = true) {k len fuel : ℕ} (hk : k ≤ 30)
    (hfit : len + vlsnrWhLen ≤ 2 ^ k + 1) (hlen : vlsnrWhLen ≤ len) (hfuel : 2 ^ k + 31 ≤ fuel)
    {symbols inputFft : List (Cplx ℝ)} (hinput : ∀ n < 2 ^ k, inputFft.getD n 0
      = dft (fftTower false) k (fun n => if n < len then symbols.getD n 0 else 0) n)
    {mc : ℕ} (hmc : mc < vlsnrNumModcods) :
    ∃ w, syncWork SyncMath.exact fuel t inputFft (2 ^ k) mc = some (mc, w) ∧
      ∀ pos ≤ len - vlsnrWhLen, w.getD (pos + vlsnrWhLen - 1) 0
        = directCorrelation symbols (t.vlsnrRef.getD mc []) pos := by
  have hwh : vlsnrWhLen = 896 := rfl
  set ref := t.vlsnrRef.getD mc [] with href
  -- the reference, its transform and the product
  have hreflen : (loadReference ref (List.replicate (2 ^ k) 0)).length = 2 ^ k := by
    rw [loadReference_length _ (by rw [List.length_replicate]; omega), List.length_replicate]
  obtain ⟨d, hfly, -, hd⟩ := syncFft_forward hk hreflen hfuel
  have hprodlen : ((List.range (2 ^ k)).map fun n =>
      inputFft.getD n 0 * d.getD n 0).length = 2 ^ k := by
    rw [List.length_map, List.length_range]
  obtain ⟨w, hwork, -, hw⟩ := syncFft_inverse hk hprodlen hfuel
  refine ⟨w, ?_, fun pos hpos => ?_⟩
  · rw [syncWork, referenceFft_eq h hfilled hmc hfuel, flyReference, hfly, Option.bind_eq_bind,
      Option.bind_some, hwork]
    rfl
  · -- the linear convolution at `pos + 895`, read from its other end
    have hp : pos + vlsnrWhLen - 1 < 2 ^ k := by omega
    refine Cplx.natCast_mul_cancel (Nat.two_pow_pos k).ne' ((hw _ hp).trans ?_)
    rw [dft_congr (b := fun n => dft (fftTower false) k
        (fun n => if n < len then symbols.getD n 0 else 0) n *
        dft (fftTower false) k ((loadReference ref (List.replicate (2 ^ k) 0)).getD · 0) n)
      _ fun n hn => by rw [getD_map_range, if_pos hn, hinput n hn, hd n hn]]
    rw [dft_inverse_mul_linear (fftTower_inverse k) (a := len) (b := vlsnrWhLen)
      (fun s hs => if_neg (not_lt.mpr hs))
      (fun n hn => by rw [loadReference_getD, if_neg (not_lt.mpr hn)]) hfit (by omega) hp]
    refine congrArg (((2 ^ k : ℕ) : Cplx ℝ) * ·) ?_
    rw [directCorrelation, ← sum_range_reflect]
    refine sum_congr rfl fun n hn => ?_
    have hn' := mem_range.mp hn
    rw [loadReference_getD, if_pos (by omega), if_pos (by omega),
      show pos + vlsnrWhLen - 1 - (vlsnrWhLen - 1 - n) = pos + n by omega,
      show vlsnrWhLen - 1 - (vlsnrWhLen - 1 - n) = n by omega]

theorem searchedModcods_lt (preferredModcod : ℕ) :
    ∀ mc ∈ searchedModcods preferredModcod, mc < vlsnrNumModcods := by
  intro mc hmc
  rw [searchedModcods] at hmc
  split at hmc
  case isTrue hpreferred =>
    rw [List.mem_singleton.mp hmc]
    omega
  case isFalse => exact List.mem_range.mp hmc

/-- **All MODCODs of the search.** -/
theorem syncWorks_direct {const : Sqrt2 ℝ} {t : SyncTables ℝ} (h : t.Valid const)
    (hfilled : t.syncFftRefInit = true) {k len fuel : ℕ} (hk : k ≤ 30)
    (hfit : len + vlsnrWhLen ≤ 2 ^ k + 1) (hlen : vlsnrWhLen ≤ len) (hfuel : 2 ^ k + 31 ≤ fuel)
    {symbols inputFft : List (Cplx ℝ)} (hinput : ∀ n < 2 ^ k, inputFft.getD n 0
      = dft (fftTower false) k (fun n => if n < len then symbols.getD n 0 else 0) n)
    (preferredModcod : ℕ) :
    ∃ works, (searchedModcods preferredModcod).mapM
        (syncWork SyncMath.exact fuel t inputFft (2 ^ k)) = some works ∧
      works.map Prod.fst = searchedModcods preferredModcod ∧
      ∀ w ∈ works, ∀ pos ≤ len - vlsnrWhLen, w.2.getD (pos + vlsnrWhLen - 1) 0
        = directCorrelation symbols (t.vlsnrRef.getD w.1 []) pos := by
  have hmodcod : ∀ mc, ∃ w, mc < vlsnrNumModcods →
      syncWork SyncMath.exact fuel t inputFft (2 ^ k) mc = some (mc, w) ∧
      ∀ pos ≤ len - vlsnrWhLen, w.getD (pos + vlsnrWhLen - 1) 0
        = directCorrelation symbols (t.vlsnrRef.getD mc []) pos := by
    intro mc
    by_cases hmc : mc < vlsnrNumModcods
    · obtain ⟨w, hw⟩ := syncWork_direct h hfilled hk hfit hlen hfuel hinput hmc
      exact ⟨w, fun _ => hw⟩
    · exact ⟨[], fun hlt => absurd hlt hmc⟩
  choose work hwork using hmodcod
  refine ⟨(searchedModcods preferredModcod).map fun mc => (mc, work mc), ?_, ?_, ?_⟩
  · exact mapM_eq_map fun mc hmc => (hwork mc (searchedModcods_lt _ mc hmc)).1
  · rw [List.map_map]
    exact List.map_id _
  · intro w hw
    obtain ⟨mc, hmc, rfl⟩ := List.mem_map.mp hw
    exact (hwork mc (searchedModcods_lt _ mc hmc)).2

/-- **The arrays of the search** at the lengths that the transform can be long enough for. -/
theorem syncArrays_direct {const : Sqrt2 ℝ} {t : SyncTables ℝ} (h : t.Valid const)
    (hfilled : t.syncFftRefInit = true) {len fuel : ℕ} (hlow : vlsnrWhLen ≤ len)
    (hhigh : len ≤ 2 ^ 30 - 895) (hfuel : 2 ^ 30 + 31 ≤ fuel) (symbols : List (Cplx ℝ))
    (preferredModcod : ℕ) :
    ∃ arrays, syncArrays SyncMath.exact fuel t symbols len preferredModcod true
        = some (some arrays) ∧
      arrays.Direct symbols t.vlsnrRef len (searchedModcods preferredModcod) := by
  have hwh : vlsnrWhLen = 896 := rfl
  have hmax : uintMax = 4294967295 := rfl
  obtain ⟨k, hk, hfftLen, hfit⟩ := fftLenFor_fit hhigh
  have hpow : 2 ^ k ≤ 2 ^ 30 := Nat.pow_le_pow_right two_pos hk
  have hrounds : 2 ^ k + 31 ≤ fuel := by omega
  -- the input behind its padding
  have hpadded : ((List.range (2 ^ k)).map fun n =>
      if n < len then symbols.getD n 0 else 0).length = 2 ^ k := by
    rw [List.length_map, List.length_range]
  obtain ⟨inputFft, hrun, -, hinput⟩ := syncFft_forward hk hpadded hrounds
  have hinput' : ∀ n < 2 ^ k, inputFft.getD n 0
      = dft (fftTower false) k (fun n => if n < len then symbols.getD n 0 else 0) n := by
    intro n hn
    rw [hinput n hn]
    exact dft_congr _ (fun s hs => by rw [getD_map_range, if_pos hs]) n
  obtain ⟨works, hworks, hmodcods, hdirect⟩ :=
    syncWorks_direct h hfilled hk hfit hlow hrounds hinput' preferredModcod
  refine ⟨⟨(List.range (len - vlsnrWhLen + 1)).map (syncEnergy symbols), works⟩, ?_, hmodcods,
    hdirect, fun pos hpos => ?_⟩
  · rw [syncArrays, if_neg (by omega), if_neg (by omega), hfftLen]
    dsimp only
    rw [if_neg (by decide), hrun, Option.bind_eq_bind, Option.bind_some, hworks]
    rfl
  · rw [← syncEnergy_window]
    dsimp only
    rw [getD_map_range, if_pos (by omega)]

/-! ### The search at every length -/

/-- The search gets to its arrays, they hold the direct computation, and a precomputed reference is
the one that would be computed on the fly. -/
def SyncCorrelates (const : Sqrt2 ℝ) (t : SyncTables ℝ) (symbols : List (Cplx ℝ))
    (len preferredModcod : ℕ) : Prop :=
  ∃ rounds, ∀ fuel, rounds ≤ fuel → ∃ t' arrays,
    syncCorrelations const SyncMath.exact fuel t symbols len preferredModcod true
      = some (t', some arrays) ∧
    arrays.Direct symbols (vlsnrReferences const) len (searchedModcods preferredModcod) ∧
    ∀ fftLen, ∀ mc < vlsnrNumModcods, ∀ reference,
      syncFftReference t' fftLen mc = some reference →
      flyReference SyncMath.exact fuel t' fftLen mc = some reference

/-- The search ends in front of its arrays. -/
def SyncSkipped (const : Sqrt2 ℝ) (t : SyncTables ℝ) (symbols : List (Cplx ℝ))
    (len preferredModcod : ℕ) : Prop :=
  ∃ rounds, ∀ fuel, rounds ≤ fuel → ∃ t',
    syncCorrelations const SyncMath.exact fuel t symbols len preferredModcod true = some (t', none)

theorem syncFftReference_le {t : SyncTables ℝ} {fftLen mc : ℕ} {reference : List (Cplx ℝ)}
    (h : syncFftReference t fftLen mc = some reference) : fftLen ≤ 8192 := by
  by_contra hlong
  rw [syncFftReference, if_neg (by omega), if_neg (by omega), if_neg (by omega)] at h
  exact absurd h (by simp)

/-- A length whose transform would be longer than `2 ^ 31` ends the search. -/
theorem syncArrays_skipped {R : Type*} [Field R] [LinearOrder R] (math : SyncMath R) (fuel : ℕ)
    (t : SyncTables R) (symbols : List (Cplx R)) {len : ℕ} (hlong : 2 ^ 31 - 895 < len)
    (preferredModcod : ℕ) (allocated : Bool) :
    syncArrays math fuel t symbols len preferredModcod allocated = some none := by
  rw [syncArrays, fftLenFor_tooLong hlong]
  split_ifs <;> rfl

/-- Where the transform is `2 ^ 31` long, the search does not come back from it. -/
theorem syncArrays_stuck {R : Type*} [Field R] [LinearOrder R] (math : SyncMath R) (fuel : ℕ)
    (t : SyncTables R) (symbols : List (Cplx R)) {len : ℕ} (hlow : 2 ^ 30 - 895 < len)
    (hhigh : len ≤ 2 ^ 31 - 895) (preferredModcod : ℕ) :
    syncArrays math fuel t symbols len preferredModcod true = none := by
  have hwh : vlsnrWhLen = 896 := rfl
  have hmax : uintMax = 4294967295 := rfl
  obtain ⟨e, he, hrun, hneed, -⟩ :=
    (fftLenFrom_spec (len + vlsnrWhLen - 1) 33 (k := 0) rfl (by omega)).1 (by omega)
  have he31 : e = 31 := by
    by_contra hne
    have hpow : 2 ^ e ≤ 2 ^ 30 := Nat.pow_le_pow_right two_pos (by omega)
    omega
  have hfftLen : fftLenFor len = some (2 ^ 31) := he31 ▸ hrun
  rw [syncArrays, if_neg (by omega), if_neg (by omega), hfftLen]
  dsimp only
  rw [if_neg (by decide), syncFft_stuck]
  rfl

/-- **The search correlates directly**, whatever the library did before: at every length whose
transform is at most `2 ^ 30` long.  Where it would be longer than `2 ^ 31` the search ends without
arrays. -/
theorem headerSync_correlates (const : Sqrt2 ℝ) {t : SyncTables ℝ}
    (ht : SyncReach const SyncMath.exact t) (symbols : List (Cplx ℝ)) {len : ℕ}
    (hlen : vlsnrWhLen ≤ len) (preferredModcod : ℕ) :
    (len ≤ 2 ^ 30 - 895 → SyncCorrelates const t symbols len preferredModcod) ∧
      (2 ^ 31 - 895 < len → SyncSkipped const t symbols len preferredModcod) := by
  have hvalid := ht.valid
  constructor
  · intro hhigh
    refine ⟨2 ^ 30 + 31, fun fuel hfuel => ?_⟩
    obtain ⟨t', hinit⟩ := hvalid.init_returns (show 8192 + 31 ≤ fuel by omega)
    obtain ⟨hvalid', hfilled⟩ := hvalid.init hinit
    obtain ⟨arrays, hrun, hdirect⟩ :=
      syncArrays_direct hvalid' hfilled hlen hhigh hfuel symbols preferredModcod
    refine ⟨t', arrays, ?_, ?_, fun fftLen mc hmc reference href => ?_⟩
    · rw [syncCorrelations, hinit, Option.bind_eq_bind, Option.bind_some, hrun]
      rfl
    · rwa [hvalid'.ref (hvalid'.filled hfilled).1] at hdirect
    · have hle := syncFftReference_le href
      exact hvalid'.same_reference hfilled hmc (by omega) href
  · intro hlong
    refine ⟨8192 + 31, fun fuel hfuel => ?_⟩
    obtain ⟨t', hinit⟩ := hvalid.init_returns hfuel
    refine ⟨t', ?_⟩
    rw [syncCorrelations, hinit, Option.bind_eq_bind, Option.bind_some,
      syncArrays_skipped _ _ _ _ hlong]
    rfl

/-- A burst of a thousand symbols, right after the start. -/
theorem headerSync_correlates_burst :
    SyncCorrelates Sqrt2.exact .start (List.replicate 1000 ⟨1, 0⟩) 1000 0 :=
  (headerSync_correlates Sqrt2.exact .start _ (by decide) 0).1 (by decide)

/-- The shortest burst that the size guard turns away. -/
theorem headerSync_tooLong :
    ¬ SyncCorrelates Sqrt2.exact .start (List.replicate (2 ^ 31 - 894) 0) (2 ^ 31 - 894) 0 := by
  rintro ⟨rounds, h⟩
  obtain ⟨t', arrays, hrun, -, -⟩ := h rounds le_rfl
  obtain ⟨t₁, -, hrun⟩ := Option.bind_eq_some_iff.mp hrun
  rw [syncArrays_skipped _ _ _ _ (by decide)] at hrun
  exact absurd (Prod.mk.inj (Option.some.inj hrun)).2 (by simp)

end OpenVlsnr
