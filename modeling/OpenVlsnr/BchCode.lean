import OpenVlsnr.BchCorrection
import Mathlib.FieldTheory.IsAlgClosed.AlgebraicClosure

/-!
# The BCH code of the nine MODCODs

Encoder and decoder build their field tables and polynomials independently; here they meet in
one field, an algebraic closure of `ZMod 2` with a root of the register polynomial.  A word is
a codeword exactly when its 24 syndromes vanish (`isCodeword_iff`), so the decoder corrects
every pattern of up to twelve errors (`bchDecode_corrects`) and accepts nothing it cannot turn
into a codeword at the distance it reports (`bchDecode_sound`).
-/

namespace OpenVlsnr

open Finset

/-- The words the encoder's generator divides. -/
def IsCodeword (enc : BchEncoder) (c : List Bool) : Prop :=
  c.length = enc.n ∧ coefPoly enc.genPoly ∣ wordPoly c

/-- The root of the register polynomial that encoder and decoder share. -/
theorem exists_bchRoot {m : ℕ} (hm : m = 14 ∨ m = 15 ∨ m = 16) :
    ∃ α : AlgebraicClosure (ZMod 2), evalBits α (gfPrimPolys m) = 0 ∧ orderOf α = 2 ^ m - 1 := by
  have hcert := gfPrimPolys_cert hm
  obtain ⟨α, hα⟩ := exists_evalBits_eq_zero (F := AlgebraicClosure (ZMod 2))
    hcert.toDefiningPoly
  exact ⟨α, hα, orderOf_of_cert hcert hα⟩

theorem wordEval_eq_aeval {F : Type*} [Field F] [Algebra (ZMod 2) F] {n : ℕ} (x : F)
    {w : List Bool} (hw : w.length = n) :
    wordEval n x w = Polynomial.aeval x (wordPoly w) := by
  rw [aeval_wordPoly, hw, wordEval]

/-- Encoder and decoder of a MODCOD over one field. -/
structure BchSetup {F : Type*} [Field F] (mc : Modcod) (enc : BchEncoder) (α : F) : Prop where
  init : bchEncoderInit mc = some (0, enc)
  k_eq : enc.k = mc.kBch
  n_eq : enc.n = mc.nBch
  parity_eq : enc.parityLen = mc.nBch - mc.kBch
  monic : (coefPoly enc.genPoly).Monic
  degree : (coefPoly enc.genPoly).natDegree = enc.parityLen
  codeword : ∀ c, IsCodeword enc c ↔
    c.length = mc.nBch ∧ ∀ k, 1 ≤ k → k ≤ 24 → wordEval mc.nBch (α ^ k) c = 0
  tables : GfSpec (gfInit (bchDecoderInit mc).gfM) α
  t_eq : (bchDecoderInit mc).t = 12
  dec_n : (bchDecoderInit mc).n ≤ (gfInit (bchDecoderInit mc).gfM).n

/-- **A word is a codeword exactly when its 24 syndromes vanish.** -/
theorem bchSetup {mc : Modcod} (hmc : mc ∈ vlsnrModcodTable) :
    ∃ (enc : BchEncoder) (α : AlgebraicClosure (ZMod 2)), BchSetup mc enc α := by
  have hm := gfOrder_cases mc.frameType
  obtain ⟨α, hroot, hord⟩ := exists_bchRoot hm
  obtain ⟨enc, hinit, hk, hn, hparity, hmonic, hdeg, hdvd⟩ := bchEncoderInit_spec hmc hroot hord
  obtain ⟨-, hlen, ht, -⟩ := modcod_bch mc hmc
  refine ⟨enc, α, hinit, hk, hn, hparity, hmonic, hdeg, fun c => ?_, ?_, ht, ?_⟩
  · rw [IsCodeword, hn]
    refine and_congr_right fun hc => ?_
    rw [hdvd]
    refine forall_congr' fun k => ?_
    rw [wordEval_eq_aeval _ hc]
  · have hle : gfOrder mc.frameType ≤ 16 := by omega
    exact gfInit_spec (gfPrimPolys_cert hm).toDefiningPoly hle hroot hord
  · exact hlen.le

section
variable {F : Type*} [Field F] [CharP F 2] [DecidableEq F] {mc : Modcod} {enc : BchEncoder}
  {α : F}

omit [CharP F 2] [DecidableEq F] in
/-- The encoder's output is a codeword that starts with the message. -/
theorem BchSetup.bchEncode_isCodeword (hs : BchSetup mc enc α) (hmc : mc ∈ vlsnrModcodTable)
    {u : List Bool} (hu : u.length = mc.kBch) :
    IsCodeword enc (bchEncode enc u) ∧ (bchEncode enc u).take mc.kBch = u := by
  obtain ⟨-, -, -, hlt⟩ := modcod_bch mc hmc
  obtain ⟨hlen, htake, hdvd⟩ := bchEncode_eq (by rw [hs.parity_eq]; omega) hs.monic hs.degree u
    (by rw [hu, hs.k_eq])
  refine ⟨⟨?_, hdvd⟩, ?_⟩
  · rw [hlen, hs.k_eq, hs.parity_eq, hs.n_eq]
    omega
  · rw [← hs.k_eq, htake]

/-- A codeword with at most twelve bits flipped is corrected. -/
theorem BchSetup.bchDecode_flipBits (hs : BchSetup mc enc α) {c : List Bool}
    (hc : IsCodeword enc c) {E : Finset ℕ} (hE : ∀ j ∈ E, j < mc.nBch) (hcard : #E ≤ 12) :
    bchDecode (bchDecoderInit mc) (flipBits E c) = ((#E : ℤ), c) := by
  obtain ⟨hlen, hzero⟩ := (hs.codeword c).mp hc
  have hsyn : SyndromesOf α (bchDecoderInit mc).n (flipBits E c) E := by
    intro k hk hk24
    rw [show (bchDecoderInit mc).n = mc.nBch from rfl, wordEval_flipBits _ hlen hE,
      hzero k hk hk24, zero_add]
  rw [bchDecode_of_power_sums hs.tables hs.t_eq hs.dec_n
    (by rw [flipBits_length]; exact hlen) hE hcard hsyn, flipBits_flipBits]

omit [DecidableEq F] in
/-- Whatever the search accepts becomes a codeword when the positions found are flipped. -/
theorem BchSetup.isCodeword_of_syndromes (hs : BchSetup mc enc α) {w : List Bool}
    (hw : w.length = mc.nBch) {E : Finset ℕ} (hE : ∀ j ∈ E, j < mc.nBch)
    (hsyn : SyndromesOf α mc.nBch w E) : IsCodeword enc (flipBits E w) := by
  refine (hs.codeword _).mpr ⟨by rw [flipBits_length, hw], fun k hk hk24 => ?_⟩
  rw [wordEval_flipBits _ hw hE, hsyn k hk hk24, CharTwo.add_self_eq_zero]

/-- Decoding an arbitrary word. -/
theorem BchSetup.bchDecode_outcome (hs : BchSetup mc enc α) {r : List Bool}
    (hr : r.length = mc.nBch) :
    (∃ E : Finset ℕ, (∀ j ∈ E, j < mc.nBch) ∧ #E ≤ 12 ∧ IsCodeword enc (flipBits E r) ∧
        bchDecode (bchDecoderInit mc) r = ((#E : ℤ), flipBits E r)) ∨
      bchDecode (bchDecoderInit mc) r = (-1, r) := by
  obtain ⟨s, hbm, hcases⟩ := bchDecode_cases hs.tables hs.t_eq hs.dec_n (w := r) hr
  by_cases hzero : ∀ k, 1 ≤ k → k ≤ 24 → wordEval (bchDecoderInit mc).n (α ^ k) r = 0
  · rw [if_pos hzero] at hcases
    refine Or.inl ⟨∅, fun j hj => absurd hj (notMem_empty j), by simp, ?_, ?_⟩
    · rw [flipBits_empty]
      exact (hs.codeword r).mpr ⟨hr, hzero⟩
    · rw [flipBits_empty, hcases]
      rfl
  · rw [if_neg hzero] at hcases
    by_cases hfound : s.l ≤ 12 ∧ (chienPositions (bchDecoderInit mc)
        (gfInit (bchDecoderInit mc).gfM) s.sigma s.l).length = s.l
    · rw [if_pos hfound] at hcases
      have hsyn := syndromes_of_full_search hs.tables hs.dec_n hbm hfound.1 hfound.2
      obtain ⟨hlt, -, -⟩ := chienPositions_card hs.tables hs.dec_n hbm
      have hcard := List.toFinset_card_of_nodup
        (chienPositions_nodup hs.tables (bchDecoderInit mc) s.sigma s.l)
      rw [hfound.2] at hcard
      refine Or.inl ⟨_, hlt, by rw [hcard]; exact hfound.1,
        hs.isCodeword_of_syndromes hr hlt hsyn, ?_⟩
      rw [hcases, hcard]
    · rw [if_neg hfound] at hcases
      exact Or.inr hcases

end

/-- **BCH corrects every pattern of up to twelve errors.** -/
theorem bchDecode_corrects (mc : Modcod) (hmc : mc ∈ vlsnrModcodTable) (u : List Bool)
    (hu : u.length = mc.kBch) (E : Finset ℕ) (hE : ∀ j ∈ E, j < mc.nBch) (hcard : #E ≤ 12) :
    ∃ enc, bchEncoderInit mc = some (0, enc) ∧
      bchDecode (bchDecoderInit mc) (flipBits E (bchEncode enc u))
        = ((#E : ℤ), bchEncode enc u) := by
  classical
  obtain ⟨enc, α, hs⟩ := bchSetup hmc
  exact ⟨enc, hs.init, hs.bchDecode_flipBits (hs.bchEncode_isCodeword hmc hu).1 hE hcard⟩

/-- Three errors in a message of ones of the spread short frame. -/
theorem bchDecode_corrects_three :
    ∃ enc, bchEncoderInit vlsnrModcodTable[4] = some (0, enc) ∧
      bchDecode (bchDecoderInit vlsnrModcodTable[4])
          (flipBits {3, 100, 2679} (bchEncode enc (List.replicate 2512 true)))
        = ((#({3, 100, 2679} : Finset ℕ) : ℤ), bchEncode enc (List.replicate 2512 true)) :=
  bchDecode_corrects vlsnrModcodTable[4] (List.getElem_mem _) (List.replicate 2512 true)
    List.length_replicate {3, 100, 2679} (by decide) (by decide)

/-- **BCH decoding is sound and atomic.**  Either a codeword at the reported distance of at
most twelve is left in the buffer, or the word is untouched and no codeword is that near. -/
theorem bchDecode_sound (mc : Modcod) (hmc : mc ∈ vlsnrModcodTable) (r : List Bool)
    (hr : r.length = mc.nBch) :
    ∃ enc, bchEncoderInit mc = some (0, enc) ∧
      let res := bchDecode (bchDecoderInit mc) r
      (0 ≤ res.1 ∧ res.1 ≤ 12 ∧ IsCodeword enc res.2 ∧
          (#(diffPositions mc.nBch r res.2) : ℤ) = res.1) ∨
        (res.1 = -1 ∧ res.2 = r ∧
          ∀ c, IsCodeword enc c → 12 < #(diffPositions mc.nBch r c)) := by
  classical
  obtain ⟨enc, α, hs⟩ := bchSetup hmc
  refine ⟨enc, hs.init, ?_⟩
  rcases hs.bchDecode_outcome hr with ⟨E, hE, hcard, hcode, hres⟩ | hres
  · rw [hres]
    have hcard' : (#E : ℤ) ≤ 12 := by exact_mod_cast hcard
    refine Or.inl ⟨Int.natCast_nonneg _, hcard', hcode, ?_⟩
    dsimp only
    rw [diffPositions_flipBits hr hE]
  · refine Or.inr ⟨by rw [hres], by rw [hres], fun c hc => ?_⟩
    by_contra hnear
    -- a codeword that near would have been found
    have hlen : c.length = mc.nBch := by rw [hc.1, hs.n_eq]
    have hflip := flipBits_diffPositions hr hlen
    have hback := flipBits_flipBits (diffPositions mc.nBch r c) r
    rw [hflip] at hback
    have hfound := hs.bchDecode_flipBits hc (E := diffPositions mc.nBch r c)
      (fun j hj => mem_range.mp (mem_filter.mp hj).1) (by omega)
    rw [hback, hres] at hfound
    have := congrArg Prod.fst hfound
    simp only at this
    omega

/-- A message of ones with three errors: a codeword is found. -/
theorem bchDecode_sound_three :
    ∃ enc, bchEncoderInit vlsnrModcodTable[4] = some (0, enc) ∧
      let r := flipBits {3, 100, 2679} (bchEncode enc (List.replicate 2512 true))
      let res := bchDecode (bchDecoderInit vlsnrModcodTable[4]) r
      0 ≤ res.1 ∧ res.1 ≤ 12 ∧ IsCodeword enc res.2 ∧
        (#(diffPositions 2680 r res.2) : ℤ) = res.1 := by
  have hmc : vlsnrModcodTable[4] ∈ vlsnrModcodTable := List.getElem_mem _
  obtain ⟨enc, α, hs⟩ := bchSetup hmc
  obtain ⟨hcode, -⟩ := hs.bchEncode_isCodeword hmc (u := List.replicate 2512 true)
    List.length_replicate
  refine ⟨enc, hs.init, ?_⟩
  set c := bchEncode enc (List.replicate 2512 true)
  have hlen : (flipBits {3, 100, 2679} c).length = 2680 := by
    rw [flipBits_length, hcode.1, hs.n_eq]
    rfl
  obtain ⟨enc', hinit, hres⟩ := bchDecode_sound vlsnrModcodTable[4] hmc (flipBits {3, 100, 2679} c)
    hlen
  obtain rfl : enc' = enc := congrArg Prod.snd (Option.some.inj (hinit.symm.trans hs.init))
  refine hres.resolve_right fun hnone => absurd (hnone.2.2 c hcode) ?_
  have hdiff := diffPositions_flipBits hlen (E := {3, 100, 2679}) (by decide)
  rw [flipBits_flipBits] at hdiff
  rw [show vlsnrModcodTable[4].nBch = 2680 from rfl, hdiff]
  decide

end OpenVlsnr
