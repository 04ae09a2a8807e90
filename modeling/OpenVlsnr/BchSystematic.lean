import OpenVlsnr.BchCode

/-!
# Systematic encoding (`bch_encode.c`)

The parity bits are what is left of the message, shifted up by their number, after division by the
generator.  A codeword is determined by its first `k_bch` bits (`IsCodeword.parity_eq`), and the
decoder's syndromes tell codewords from other words, so `dvbs2x_bch_encode` writes the one word
with the message in front on which all of them vanish (`bchEncode_systematic`).
-/

namespace OpenVlsnr

open Polynomial

/-! ### Words and degrees -/

theorem degree_wordPoly_lt (w : List Bool) : (wordPoly w).degree < w.length := by
  rw [degree_lt_iff_coeff_zero]
  intro i hi
  rw [wordPoly, coefPoly_coeff, List.getD_eq_getElem?_getD,
    List.getElem?_eq_none (by rw [List.length_reverse]; exact hi)]
  rfl

/-- Words of one length are told apart by their polynomials. -/
theorem wordPoly_injective {v w : List Bool} (hlen : v.length = w.length)
    (h : wordPoly v = wordPoly w) : v = w := by
  have hrev : v.reverse = w.reverse :=
    list_ext_getD false (by rw [List.length_reverse, List.length_reverse, hlen]) fun i _ =>
      getD_of_coefPoly_eq h i
  exact List.reverse_injective hrev

/-! ### Codewords -/

section
variable {F : Type*} [Field F] {mc : Modcod} {enc : BchEncoder} {α : F}

/-- **The parity of a codeword** is the remainder of its message. -/
theorem IsCodeword.parity_eq (hs : BchSetup mc enc α) {c : List Bool} (hc : IsCodeword enc c) :
    wordPoly (c.drop mc.kBch)
      = wordPoly (c.take mc.kBch) * X ^ enc.parityLen % coefPoly enc.genPoly := by
  obtain ⟨hlen, q, hq⟩ := hc
  have hparity : (c.drop mc.kBch).length = enc.parityLen := by
    rw [List.length_drop, hlen, hs.n_eq, hs.parity_eq]
  rw [← List.take_append_drop mc.kBch c, wordPoly_append, hparity] at hq
  have hdegree : (wordPoly (c.drop mc.kBch)).degree < (coefPoly enc.genPoly).degree := by
    rw [degree_eq_natDegree hs.monic.ne_zero, hs.degree, ← hparity]
    exact degree_wordPoly_lt _
  rw [← modByMonic_eq_mod _ hs.monic]
  refine (div_modByMonic_unique q _ hs.monic ⟨?_, hdegree⟩).2.symm
  -- in characteristic two the parity may change sides
  have htwo : wordPoly (c.drop mc.kBch) + wordPoly (c.drop mc.kBch) = 0 :=
    CharTwo.add_self_eq_zero _
  linear_combination htwo - hq

/-- A codeword is determined by its message. -/
theorem IsCodeword.eq_of_take (hs : BchSetup mc enc α) {c c' : List Bool}
    (hc : IsCodeword enc c) (hc' : IsCodeword enc c')
    (htake : c.take mc.kBch = c'.take mc.kBch) : c = c' := by
  have hpoly : wordPoly (c.drop mc.kBch) = wordPoly (c'.drop mc.kBch) := by
    rw [hc.parity_eq hs, hc'.parity_eq hs, htake]
  have hdrop := wordPoly_injective (by rw [List.length_drop, List.length_drop, hc.1, hc'.1]) hpoly
  rw [← List.take_append_drop mc.kBch c, ← List.take_append_drop mc.kBch c', htake, hdrop]

/-- **The decoder's syndromes tell codewords from other words.** -/
theorem BchSetup.isCodeword_iff_syndromes [CharP F 2] (hs : BchSetup mc enc α) {w : List Bool}
    (hw : w.length = mc.nBch) :
    IsCodeword enc w ↔ ∀ i, 1 ≤ i → i ≤ 24 →
      (bchSyndromes (bchDecoderInit mc) (gfInit (bchDecoderInit mc).gfM) w).getD i 0 = 0 := by
  rw [hs.codeword, and_iff_right hw]
  refine forall_congr' fun i => forall_congr' fun hi => forall_congr' fun hi24 => ?_
  exact (bchSyndromes_eq_zero_iff hs.tables hs.t_eq w hi hi24).symm

end

/-- **BCH encoding is systematic division.**  The output is the message followed by the remainder
of `u(x) * x ^ parity_len` modulo the generator.  The decoder's 24 syndromes vanish on it, and one
of them does not on any other word that starts with the message. -/
theorem bchEncode_systematic (mc : Modcod) (hmc : mc ∈ vlsnrModcodTable) (u : List Bool)
    (hu : u.length = mc.kBch) :
    ∃ enc, bchEncoderInit mc = some (0, enc) ∧
      let c := bchEncode enc u
      let syndromes := bchSyndromes (bchDecoderInit mc) (gfInit (bchDecoderInit mc).gfM)
      (∃ parity, c = u ++ parity ∧ parity.length = enc.parityLen ∧
        wordPoly parity = wordPoly u * X ^ enc.parityLen % coefPoly enc.genPoly) ∧
      (∀ i, 1 ≤ i → i ≤ 24 → (syndromes c).getD i 0 = 0) ∧
      ∀ w : List Bool, w.length = mc.nBch → w.take mc.kBch = u → w ≠ c →
        ∃ i, 1 ≤ i ∧ i ≤ 24 ∧ (syndromes w).getD i 0 ≠ 0 := by
  obtain ⟨enc, α, hs⟩ := bchSetup hmc
  obtain ⟨hcode, htake⟩ := hs.bchEncode_isCodeword hmc hu
  have hlen : (bchEncode enc u).length = mc.nBch := by rw [hcode.1, hs.n_eq]
  refine ⟨enc, hs.init, ⟨(bchEncode enc u).drop mc.kBch, ?_, ?_, ?_⟩,
    (hs.isCodeword_iff_syndromes hlen).mp hcode, fun w hw hmessage hne => ?_⟩
  · have hsplit := List.take_append_drop mc.kBch (bchEncode enc u)
    rw [htake] at hsplit
    exact hsplit.symm
  · rw [List.length_drop, hlen, hs.parity_eq]
  · have hparity := hcode.parity_eq hs
    rwa [htake] at hparity
  · by_contra hall
    push Not at hall
    have hcode' : IsCodeword enc w := (hs.isCodeword_iff_syndromes hw).mpr hall
    exact hne (hcode'.eq_of_take hs hcode (by rw [hmessage, htake]))

/-- A message of ones of the spread short frame: the syndromes tell its codeword from the word with
the last parity bit turned. -/
theorem bchEncode_systematic_ones :
    ∃ enc, bchEncoderInit vlsnrModcodTable[4] = some (0, enc) ∧
      let c := bchEncode enc (List.replicate 2512 true)
      let dec := bchDecoderInit vlsnrModcodTable[4]
      (∃ parity, c = List.replicate 2512 true ++ parity) ∧
        (∀ i, 1 ≤ i → i ≤ 24 → (bchSyndromes dec (gfInit dec.gfM) c).getD i 0 = 0) ∧
        ∃ i, 1 ≤ i ∧ i ≤ 24 ∧
          (bchSyndromes dec (gfInit dec.gfM) (flipBits {2679} c)).getD i 0 ≠ 0 := by
  have hmc : vlsnrModcodTable[4] ∈ vlsnrModcodTable := List.getElem_mem _
  obtain ⟨enc, α, hs⟩ := bchSetup hmc
  obtain ⟨hcode, htake⟩ := hs.bchEncode_isCodeword hmc (u := List.replicate 2512 true)
    List.length_replicate
  obtain ⟨enc', hinit, ⟨parity, hparity, -⟩, hsyndromes, hothers⟩ :=
    bchEncode_systematic vlsnrModcodTable[4] hmc (List.replicate 2512 true) List.length_replicate
  obtain rfl : enc' = enc := congrArg Prod.snd (Option.some.inj (hinit.symm.trans hs.init))
  have hlen : (bchEncode enc' (List.replicate 2512 true)).length = 2680 := by
    rw [hcode.1, hs.n_eq]
    rfl
  refine ⟨enc', hinit, ⟨parity, hparity⟩, hsyndromes, hothers _ ?_ ?_ fun heq => ?_⟩
  · rw [flipBits_length, hlen]
    rfl
  · exact (flipBits_take (by decide) _).trans htake
  · have hbit := congrArg (fun w : List Bool => w.getD 2679 false) heq
    rw [flipBits_getD _ _ (by rw [hlen]; decide), decide_eq_true (Finset.mem_singleton_self _),
      Bool.xor_true] at hbit
    exact Bool.not_ne_self _ hbit

end OpenVlsnr
