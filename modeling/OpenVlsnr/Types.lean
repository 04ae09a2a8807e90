import Mathlib.Tactic

/-!
# Common types, error codes and the MODCOD table

The constants of `dvbs2x_types.h` and the nine rows of `vlsnr_modcod_table`.  Every later
module reads its frame geometry from `Modcod`; a statement about "each of the nine MODCODs"
is a statement about every member of `vlsnrModcodTable`.
-/

namespace OpenVlsnr

/-- A `uint8_t`. -/
abbrev Byte := BitVec 8

/-! ### Literals -/

-- the literals that field arithmetic shares between modules, each with one proof of its own
instance atLeastTwo_two : Nat.AtLeastTwo 2 := inferInstance
instance atLeastTwo_three : Nat.AtLeastTwo 3 := inferInstance
instance atLeastTwo_four : Nat.AtLeastTwo 4 := inferInstance
instance atLeastTwo_five : Nat.AtLeastTwo 5 := inferInstance
instance atLeastTwo_seven : Nat.AtLeastTwo 7 := inferInstance
instance atLeastTwo_nine : Nat.AtLeastTwo 9 := inferInstance
instance atLeastTwo_ten : Nat.AtLeastTwo 10 := inferInstance
instance atLeastTwo_twenty : Nat.AtLeastTwo 20 := inferInstance
instance atLeastTwo_forty : Nat.AtLeastTwo 40 := inferInstance
instance atLeastTwo_thousand : Nat.AtLeastTwo 1000 := inferInstance

/-! ### Error codes -/

abbrev ok : ℤ := 0
abbrev errNomem : ℤ := -1
abbrev errParam : ℤ := -2
abbrev errNosync : ℤ := -3
abbrev errFec : ℤ := -4
abbrev errCrc : ℤ := -5
abbrev errShort : ℤ := -6
abbrev errCancelled : ℤ := -7

/-! ### Lengths -/

abbrev ldpcNormal : ℕ := 64800
abbrev ldpcMedium : ℕ := 32400
abbrev ldpcShort : ℕ := 16200
abbrev plheaderLen : ℕ := 90
abbrev vlsnrWhLen : ℕ := 896
abbrev vlsnrHdrLen : ℕ := 900
abbrev vlsnrFrameLong : ℕ := 33282
abbrev vlsnrFrameShort : ℕ := 16686
abbrev ldpcMaxIter : ℕ := 200
abbrev ldpcParallel : ℕ := 360
abbrev bbHeaderLen : ℕ := 10
abbrev filterMaxTaps : ℕ := 256

/-- `UINT_MAX` of a 32-bit `unsigned int`. -/
abbrev uintMax : ℕ := 4294967295

/-! ### MODCOD descriptors -/

inductive Mod where
  | bpsk
  | qpsk
  deriving DecidableEq, Repr

inductive FrameType where
  | normal
  | medium
  | short
  deriving DecidableEq, Repr

inductive VlsnrSet where
  | set1
  | set2
  deriving DecidableEq, Repr

/-- `struct dvbs2x_modcod`. -/
structure Modcod where
  index : ℕ
  modulation : Mod
  frameType : FrameType
  fecLen : ℕ
  codeRateNum : ℕ
  codeRateDen : ℕ
  hasSpread : Bool
  set : VlsnrSet
  plsCode : ℕ
  kBch : ℕ
  nBch : ℕ
  bchT : ℕ
  kLdpc : ℕ
  qLdpc : ℕ
  xs : ℕ
  xp : ℕ
  pPeriod : ℕ
  nbchEff : ℕ
  deriving DecidableEq, Repr

/-- Transmitted coded bits after shortening and puncturing. -/
def txCodedBits (mc : Modcod) : ℕ := mc.fecLen - mc.xs - mc.xp

/-- `vlsnr_modcod_table`. -/
def vlsnrModcodTable : List Modcod :=
  [ -- QPSK 2/9, normal frame
    { index := 1, modulation := .qpsk, frameType := .normal, fecLen := 64800,
      codeRateNum := 2, codeRateDen := 9, hasSpread := false, set := .set1, plsCode := 129,
      kBch := 14208, nBch := 14400, bchT := 12, kLdpc := 14400, qLdpc := 140,
      xs := 0, xp := 3240, pPeriod := 15, nbchEff := 14400 },
    -- BPSK 1/5, medium frame
    { index := 2, modulation := .bpsk, frameType := .medium, fecLen := 32400,
      codeRateNum := 1, codeRateDen := 5, hasSpread := false, set := .set1, plsCode := 129,
      kBch := 5660, nBch := 5840, bchT := 12, kLdpc := 6480, qLdpc := 72,
      xs := 640, xp := 980, pPeriod := 25, nbchEff := 5840 },
    -- BPSK 11/45, medium frame
    { index := 3, modulation := .bpsk, frameType := .medium, fecLen := 32400,
      codeRateNum := 11, codeRateDen := 45, hasSpread := false, set := .set1, plsCode := 129,
      kBch := 7740, nBch := 7920, bchT := 12, kLdpc := 7920, qLdpc := 68,
      xs := 0, xp := 1620, pPeriod := 15, nbchEff := 7920 },
    -- BPSK 1/3, medium frame
    { index := 4, modulation := .bpsk, frameType := .medium, fecLen := 32400,
      codeRateNum := 1, codeRateDen := 3, hasSpread := false, set := .set1, plsCode := 129,
      kBch := 10620, nBch := 10800, bchT := 12, kLdpc := 10800, qLdpc := 60,
      xs := 0, xp := 1620, pPeriod := 13, nbchEff := 10800 },
    -- BPSK-S 1/5, short frame (spread)
    { index := 5, modulation := .bpsk, frameType := .short, fecLen := 16200,
      codeRateNum := 1, codeRateDen := 5, hasSpread := true, set := .set1, plsCode := 129,
      kBch := 2512, nBch := 2680, bchT := 12, kLdpc := 3240, qLdpc := 36,
      xs := 560, xp := 250, pPeriod := 30, nbchEff := 2680 },
    -- BPSK-S 11/45, short frame (spread)
    { index := 6, modulation := .bpsk, frameType := .short, fecLen := 16200,
      codeRateNum := 11, codeRateDen := 45, hasSpread := true, set := .set1, plsCode := 129,
      kBch := 3792, nBch := 3960, bchT := 12, kLdpc := 3960, qLdpc := 34,
      xs := 0, xp := 810, pPeriod := 15, nbchEff := 3960 },
    -- BPSK 1/5, short frame
    { index := 7, modulation := .bpsk, frameType := .short, fecLen := 16200,
      codeRateNum := 1, codeRateDen := 5, hasSpread := false, set := .set2, plsCode := 131,
      kBch := 3072, nBch := 3240, bchT := 12, kLdpc := 3240, qLdpc := 36,
      xs := 0, xp := 1224, pPeriod := 10, nbchEff := 3240 },
    -- BPSK 4/15, short frame
    { index := 8, modulation := .bpsk, frameType := .short, fecLen := 16200,
      codeRateNum := 4, codeRateDen := 15, hasSpread := false, set := .set2, plsCode := 131,
      kBch := 4152, nBch := 4320, bchT := 12, kLdpc := 4320, qLdpc := 33,
      xs := 0, xp := 1224, pPeriod := 8, nbchEff := 4320 },
    -- BPSK 1/3, short frame
    { index := 9, modulation := .bpsk, frameType := .short, fecLen := 16200,
      codeRateNum := 1, codeRateDen := 3, hasSpread := false, set := .set2, plsCode := 131,
      kBch := 5232, nBch := 5400, bchT := 12, kLdpc := 5400, qLdpc := 30,
      xs := 0, xp := 1224, pPeriod := 8, nbchEff := 5400 } ]

/-- `dvbs2x_vlsnr_get_modcod`. -/
def vlsnrGetModcod (index : ℕ) : Option Modcod :=
  if index < 1 ∨ index > 9 then none else vlsnrModcodTable[index - 1]?

/-- What a table lookup returns is a row of the table. -/
theorem vlsnrGetModcod_mem {index : ℕ} {mc : Modcod} (h : vlsnrGetModcod index = some mc) :
    mc ∈ vlsnrModcodTable := by
  unfold vlsnrGetModcod at h
  split at h
  · cases h
  · exact List.mem_of_getElem? h

/-- The geometry every row of the table satisfies; later modules take from it what they need. -/
theorem modcod_geometry : ∀ mc ∈ vlsnrModcodTable,
    1584 < mc.kBch ∧ mc.kBch ≤ ldpcNormal ∧ mc.kBch < mc.nBch ∧ mc.kLdpc = mc.xs + mc.nBch ∧
      mc.bchT = 12 ∧ mc.kLdpc < mc.fecLen ∧ mc.fecLen = mc.kLdpc + ldpcParallel * mc.qLdpc := by
  decide

end OpenVlsnr
