import OpenVlsnr.Modulator

/-!
# The quarter turns of a frame

Every symbol of a frame is a quarter turn of the pilot (`quarter`), and so is every symbol of a
reference.  Behind the conjugate of the reference a symbol leaves the turn between the two
(`quarter_conj`), and a segment of the search adds up in full only if this turn stays the same from
its first symbol to its last.

Before the data field all symbols are known, and the turns are compared bit by bit in one word
(`changeWord`): for every MODCOD, every reference and every position but the right one they change
within a segment (`headers_mix`).  In the data field only the pilots are known.  A reference turns
by an odd number of quarters from one symbol to the next, and the pilots would have to as well; but
then the `x` part of the Gold sequence, which satisfies one recurrence for all indices, would not
(`pilots_mix`).
-/

namespace OpenVlsnr

open Finset

/-! ### Quarter turns -/

/-- The pilot, turned `e` times by a quarter. -/
noncomputable def quarter (e : ℕ) : Cplx ℝ :=
  phasor 1 (Real.pi / 4 + e * (Real.pi / 2))

theorem half_eq_cos : Sqrt2.exact.half = Real.cos (Real.pi / 4) := by
  show (√2)⁻¹ = Real.cos (Real.pi / 4)
  rw [Real.cos_pi_div_four, ← Real.sqrt_div_self, div_eq_mul_inv]

theorem half_eq_sin : Sqrt2.exact.half = Real.sin (Real.pi / 4) := by
  rw [half_eq_cos, Real.cos_pi_div_four, Real.sin_pi_div_four]

/-- Four quarters are one turn. -/
theorem quarter_add_four (e : ℕ) : quarter (e + 4) = quarter e := by
  rw [quarter, quarter, ← phasor_turns 1 (Real.pi / 4 + e * (Real.pi / 2)) 1]
  congr 1
  push_cast
  ring

/-- One quarter more. -/
theorem quarter_succ (e : ℕ) : quarter (e + 1) = ⟨-(quarter e).q, (quarter e).i⟩ := by
  have hangle : Real.pi / 4 + ((e + 1 : ℕ) : ℝ) * (Real.pi / 2)
      = Real.pi / 4 + e * (Real.pi / 2) + Real.pi / 2 := by
    push_cast
    ring
  rw [quarter, hangle, phasor, Real.cos_add_pi_div_two, Real.sin_add_pi_div_two]
  simp [quarter, phasor]

theorem quarter_zero : quarter 0 = ⟨Sqrt2.exact.half, Sqrt2.exact.half⟩ := by
  rw [quarter]
  ext
  · simp [phasor, half_eq_cos]
  · simp [phasor, half_eq_sin]

theorem quarter_one : quarter 1 = ⟨-Sqrt2.exact.half, Sqrt2.exact.half⟩ := by
  rw [← Nat.zero_add 1, quarter_succ, quarter_zero]

theorem quarter_two : quarter 2 = ⟨-Sqrt2.exact.half, -Sqrt2.exact.half⟩ := by
  rw [quarter_succ 1, quarter_one]

theorem quarter_three : quarter 3 = ⟨Sqrt2.exact.half, -Sqrt2.exact.half⟩ := by
  rw [quarter_succ 2, quarter_two, neg_neg]

/-- What is left of a symbol behind the conjugate of another: the turn between them. -/
theorem quarter_conj (e f : ℕ) :
    quarter e * (quarter f).conj = phasor 1 (((e + 3 * f : ℕ) : ℝ) * (Real.pi / 2)) := by
  rw [quarter, quarter, phasor_conj, phasor_mul, mul_one,
    ← phasor_turns 1 (Real.pi / 4 + e * (Real.pi / 2) + _) f]
  congr 1
  push_cast
  ring

/-- Different turns are told apart. -/
theorem turns_injective {a b : ℕ}
    (h : phasor 1 ((a : ℝ) * (Real.pi / 2)) = phasor 1 ((b : ℝ) * (Real.pi / 2))) :
    a % 4 = b % 4 := by
  have hpi := Real.pi_pos
  have hone : phasor 1 (((a : ℝ) - b) * (Real.pi / 2)) = 1 := by
    have hmul : phasor 1 ((a : ℝ) * (Real.pi / 2)) * phasor 1 (-((b : ℝ) * (Real.pi / 2)))
        = phasor 1 0 := by
      rw [h, phasor_mul, mul_one, add_neg_cancel]
    rw [phasor_mul, mul_one, phasor_one_zero] at hmul
    rw [← hmul]
    congr 1
    ring
  have hcos : Real.cos (((a : ℝ) - b) * (Real.pi / 2)) = 1 := by
    have := congrArg Cplx.i hone
    simpa [phasor] using this
  obtain ⟨k, hk⟩ := (Real.cos_eq_one_iff _).mp hcos
  have hint : (a : ℤ) - b = 4 * k := by
    have hreal : (a : ℝ) - b = 4 * k := by
      have : ((a : ℝ) - b - 4 * k) * (Real.pi / 2) = 0 := by linarith
      rcases mul_eq_zero.mp this with h | h
      · linarith
      · linarith
    exact_mod_cast hreal
  omega

theorem turn_power (e : ℕ) : symbolPower (quarter e) = 1 := by
  rw [quarter, phasor_power, one_pow]

/-! ### Known symbols -/

/-- The quarter of a header symbol. -/
def bpskQuarter (n : ℕ) (b : Bool) : ℕ := n % 2 + if b then 2 else 0

theorem pi2bpskSymbol_quarter (n : ℕ) (b : Bool) :
    pi2bpskSymbol Sqrt2.exact n b = quarter (bpskQuarter n b) := by
  rw [pi2bpskSymbol, bpskQuarter]
  rcases Nat.mod_two_eq_zero_or_one n with hn | hn
  · rw [hn]
    cases b
    · simp [quarter_zero]
    · simp [quarter_two]
  · rw [hn]
    cases b
    · simp [quarter_one]
    · simp [quarter_three]

/-- The quarter of a PL header symbol. -/
def plQuarter (phase : ℕ) (b : Bool) : ℕ :=
  [0, 1, 1].getD phase 2 + if b then 2 else 0

theorem plConst_quarter (phase : ℕ) (b : Bool) :
    plConst Sqrt2.exact phase b = quarter (plQuarter phase b) := by
  match phase, b with
  | 0, false => simp [plConst, plQuarter, quarter_zero]
  | 0, true => simp [plConst, plQuarter, quarter_two]
  | 1, false => simp [plConst, plQuarter, quarter_one]
  | 1, true => simp [plConst, plQuarter, quarter_three]
  | 2, false => simp [plConst, plQuarter, quarter_one]
  | 2, true => simp [plConst, plQuarter, quarter_three]
  | _ + 3, false => simp [plConst, plQuarter, quarter_two]
  | _ + 3, true => simp [plConst, plQuarter, quarter_add_four 0, quarter_zero]

/-- The phase of a PL header symbol for `π/2`-BPSK with the VL-SNR bit. -/
def plPhase (n : ℕ) : ℕ := if n < sofLen then n % 2 else n % 2 + 2

/-- The bits of the PL header. -/
def plBits (mc : Modcod) : List Bool := sofSequence ++ plsEncode (mc.plsCode &&& 0xFF)

/-- The quarters of a frame before its data field. -/
def knownQuarter (mc : Modcod) (k : ℕ) : ℕ :=
  if k < 90 then plQuarter (plPhase k) ((plBits mc).getD k false)
  else bpskQuarter (k - 90) ((vlsnrHeaderChips mc).getD (k - 90) 0 < 0)

/-- The quarters of a reference. -/
def refQuarter (i n : ℕ) : ℕ :=
  bpskQuarter n ((vlsnrGeneratePattern (modcodToAnnexI.getD i 0)).getD n 0 < 0)

theorem reference_quarter {i n : ℕ} (hi : i < vlsnrNumModcods) (hn : n < vlsnrWhLen) :
    ((vlsnrReferences Sqrt2.exact).getD i []).getD n 0 = quarter (refQuarter i n) := by
  rw [vlsnrReferences, getD_map_range, if_pos hi, chipsToSymbols, getD_map_range, if_pos hn,
    Nat.zero_add, pi2bpskSymbol_quarter, refQuarter]

theorem modcod_vlsnr : ∀ mc ∈ vlsnrModcodTable, mc.plsCode.testBit 7 = true := by decide

theorem modFrame_known {mc : Modcod} (hmc : mc ∈ vlsnrModcodTable) (goldIdx : ℕ)
    (bits : List Bool) {k : ℕ} (hk : k < 990) :
    (modFrame Sqrt2.exact mc goldIdx bits).getD k 0 = quarter (knownQuarter mc k) := by
  rw [modFrame_getD hmc, knownQuarter]
  split
  · rename_i hpl
    rw [plheaderGenerate]
    dsimp only
    rw [getD_map_range, if_pos hpl, modcod_vlsnr mc hmc]
    exact plConst_quarter _ _
  · have hhdr : vlsnrHdrLen = 900 := rfl
    rw [vlsnrHeaderGenerate_eq _ hmc, chipsToSymbols, getD_map_range,
      if_pos (by omega), Nat.zero_add]
    exact pi2bpskSymbol_quarter _ _

/-! ### Headers -/

/-- The turn changes from the `k`-th symbol of a window at `d` to the next, inside a segment. -/
def TurnChanges (x r : ℕ → ℕ) (d k : ℕ) : Prop :=
  (k + 1) % syncSegLen ≠ 0 ∧ (x (d + k) + 3 * r k) % 4 ≠ (x (d + (k + 1)) + 3 * r (k + 1)) % 4

/-- A chip of the matrix. -/
def baseBit (n : ℕ) : Bool :=
  ((vlsnrBaseMatrix.getD (n / vlsnrCols) []).getD (n % vlsnrCols / 8) 0).getLsbD
    (7 - n % vlsnrCols % 8)

/-- The sign of a row. -/
def rowBit (i row : ℕ) : Bool := (vlsnrWhSigns.getD (modcodToAnnexI.getD i 0) []).getD row 0 < 0

theorem pattern_bits : ∀ i < vlsnrNumModcods,
    (vlsnrGeneratePattern (modcodToAnnexI.getD i 0)).map (fun c => decide (c < 0))
      = (List.range vlsnrWhLen).map fun n => baseBit n ^^ rowBit i (n / vlsnrCols) := by
  decide +kernel

/-- Where the chips of the matrix change; the sign of a row does not matter there. -/
def stepWord : ℕ := Nat.ofBits fun n : Fin vlsnrWhLen => baseBit n ^^ baseBit (n + 1)

/-- The places that do not end a row. -/
def rowWord : ℕ := Nat.ofBits fun n : Fin vlsnrWhLen => (n + 1) % vlsnrCols != 0

/-- The places that do not end a segment. -/
def insideWord : ℕ := Nat.ofBits fun n : Fin vlsnrWhLen => (n + 1) % syncSegLen != 0

/-- The places where the turn between a header, from its symbol `e` on, and a reference changes
within a row of each and within a segment. -/
def changeWord (e : ℕ) : ℕ :=
  (stepWord <<< 2 >>> e ^^^ stepWord ^^^ bif e.testBit 0 then 2 ^ vlsnrWhLen - 1 else 0) &&&
    (rowWord <<< 2 >>> e &&& rowWord &&& insideWord)

theorem changeWord_ne_zero : ∀ e < 773, e ≠ 2 → changeWord e ≠ 0 := by
  decide +kernel

/-- Two references differ in the sign of a row against the row before. -/
theorem rowBit_ne : ∀ i < vlsnrNumModcods, ∀ j < vlsnrNumModcods, i ≠ j → ∃ row < 15,
    (vlsnrCols * (row + 1)) % syncSegLen ≠ 0 ∧
    (rowBit i row ^^ rowBit j row) ≠ (rowBit i (row + 1) ^^ rowBit j (row + 1)) := by
  decide +kernel

/-- A place of a packed word. -/
theorem ofBits_spec (f : ℕ → Bool) {k : ℕ}
    (h : (Nat.ofBits fun n : Fin vlsnrWhLen => f n).testBit k = true) :
    k < vlsnrWhLen ∧ f k = true := by
  by_cases hk : k < vlsnrWhLen
  · rw [Nat.testBit_ofBits_lt _ _ hk] at h
    exact ⟨hk, h⟩
  · rw [Nat.testBit_ofBits_ge _ _ (not_lt.mp hk)] at h
    exact absurd h Bool.false_ne_true

theorem refQuarter_eq {i n : ℕ} (hi : i < vlsnrNumModcods) (hn : n < vlsnrWhLen) :
    refQuarter i n = bpskQuarter n (baseBit n ^^ rowBit i (n / vlsnrCols)) := by
  have hbits : decide ((vlsnrGeneratePattern (modcodToAnnexI.getD i 0)).getD n 0 < 0)
      = ((vlsnrGeneratePattern (modcodToAnnexI.getD i 0)).map fun c => decide (c < 0)).getD n
        (decide ((0 : ℤ) < 0)) := (List.getD_map _ (0 : ℤ) fun c => decide (c < 0)).symm
  rw [refQuarter, hbits, pattern_bits i hi, getD_map_range, if_pos hn]

theorem knownQuarter_header {mc : Modcod} (hmc : mc ∈ vlsnrModcodTable) {n : ℕ}
    (hn : n < vlsnrWhLen) : knownQuarter mc (92 + n) = refQuarter (mc.index - 1) n := by
  have hlen : (vlsnrGeneratePattern (modcodToAnnexI.getD (mc.index - 1) 0)).length = vlsnrWhLen := by
    obtain ⟨hlow, hhigh, -⟩ := modcod_headers mc hmc
    have h := congrArg List.length (pattern_bits (mc.index - 1) (by omega))
    rwa [List.length_map, List.length_map, List.length_range] at h
  rw [knownQuarter, if_neg (by omega), show 92 + n - 90 = 2 + n by omega, vlsnrHeaderChips,
    List.append_assoc, List.getD_append_right _ _ _ _ (by simp),
    List.getD_append _ _ _ _ (by rw [hlen]; simpa using hn), refQuarter, bpskQuarter, bpskQuarter,
    show (2 + n) % 2 = n % 2 by omega]
  simp

@[simp] theorem bpskQuarter_parity (n : ℕ) (b : Bool) : bpskQuarter n b % 2 = n % 2 := by
  rw [bpskQuarter]
  split
  · omega
  · omega

/-- The turn between a header and a reference, from one symbol to the next. -/
theorem bpskQuarter_turn (m k : ℕ) (a a' b b' : Bool) :
    (bpskQuarter m a + 3 * bpskQuarter k b) % 4
        ≠ (bpskQuarter (m + 1) a' + 3 * bpskQuarter (k + 1) b') % 4
      ↔ ((a ^^ a') ^^ (b ^^ b') ^^ decide ((m + k) % 2 = 1)) = true := by
  have hm := Nat.mod_two_eq_zero_or_one m
  have hk := Nat.mod_two_eq_zero_or_one k
  simp only [bpskQuarter]
  cases a <;> cases a' <;> cases b <;> cases b' <;> simp <;> omega

/-- A place where the turn changes within a row of each. -/
theorem changeWord_spec {e k : ℕ} (h : (changeWord e).testBit k = true) :
    2 ≤ e + k ∧ e + k - 1 < vlsnrWhLen ∧ k + 1 < vlsnrWhLen ∧ (k + 1) % syncSegLen ≠ 0 ∧
    (e + k - 1) % vlsnrCols ≠ 0 ∧ (k + 1) % vlsnrCols ≠ 0 ∧
    ((baseBit (e + k - 2) ^^ baseBit (e + k - 1)) ^^ (baseBit k ^^ baseBit (k + 1))
      ^^ decide ((e + k + k) % 2 = 1)) = true := by
  have hwh : vlsnrWhLen = 896 := rfl
  have hcols : vlsnrCols = 56 := rfl
  rw [changeWord, Nat.testBit_and, Nat.testBit_and, Nat.testBit_and, Nat.testBit_shiftRight,
    Nat.testBit_shiftLeft, Nat.testBit_xor, Nat.testBit_xor, Nat.testBit_shiftRight,
    Nat.testBit_shiftLeft] at h
  simp only [Bool.and_eq_true, decide_eq_true_eq] at h
  obtain ⟨hchange, ⟨⟨htwo, hrow⟩, hrow'⟩, hinside⟩ := h
  obtain ⟨hlt, hcol⟩ := ofBits_spec (fun n => (n + 1) % vlsnrCols != 0) hrow
  obtain ⟨hlt', hcol'⟩ := ofBits_spec (fun n => (n + 1) % vlsnrCols != 0) hrow'
  obtain ⟨-, hseg⟩ := ofBits_spec (fun n => (n + 1) % syncSegLen != 0) hinside
  rw [bne_iff_ne, hcols] at hcol hcol'
  rw [bne_iff_ne] at hseg
  rw [show e + k - 2 + 1 = e + k - 1 by omega] at hcol
  have hodd : (bif e.testBit 0 then 2 ^ vlsnrWhLen - 1 else 0).testBit k
      = decide ((e + k + k) % 2 = 1) := by
    rw [Nat.testBit_zero, show (e + k + k) % 2 = e % 2 by omega]
    cases decide (e % 2 = 1)
    · rw [cond_false, Nat.zero_testBit]
    · rw [cond_true, Nat.testBit_two_pow_sub_one, decide_eq_true hlt']
  rw [hodd, stepWord, Nat.testBit_ofBits_lt _ _ hlt, Nat.testBit_ofBits_lt _ _ hlt',
    decide_eq_true htwo, Bool.true_and, show e + k - 2 + 1 = e + k - 1 by omega] at hchange
  exact ⟨htwo, by omega, by omega, hseg, hcol, hcol', hchange⟩

/-- **Headers tell positions and MODCODs apart**: the turn changes within a segment, before the
data field, for every reference and every position but the right one. -/
theorem headers_mix {mc : Modcod} (hmc : mc ∈ vlsnrModcodTable) {i d : ℕ}
    (hi : i < vlsnrNumModcods) (hd : d < 863) (hne : ¬(d = 92 ∧ i + 1 = mc.index)) :
    ∃ k, k + 1 < vlsnrWhLen ∧ d + (k + 1) < 990 ∧
      TurnChanges (knownQuarter mc) (refQuarter i) d k := by
  have hwh : vlsnrWhLen = 896 := rfl
  have hcols : vlsnrCols = 56 := rfl
  have hseg : syncSegLen = 128 := rfl
  obtain ⟨hlow, hhigh, -⟩ := modcod_headers mc hmc
  by_cases hpl : d < 90
  · -- the parity of the PL header against the pattern
    refine ⟨89 - d, by omega, by omega, by rw [hseg]; omega, ?_⟩
    have hlast : ∀ b, plQuarter (plPhase 89) b % 2 = 0 := by decide
    have hx := hlast ((plBits mc).getD 89 false)
    have hx' := bpskQuarter_parity (90 - 90) ((vlsnrHeaderChips mc).getD (90 - 90) 0 < 0)
    have href : ∀ n, refQuarter i n % 2 = n % 2 := fun n => bpskQuarter_parity _ _
    have hr := href (89 - d)
    have hr' := href (89 - d + 1)
    rw [show d + (89 - d) = 89 by omega, show d + (89 - d + 1) = 90 by omega, knownQuarter,
      knownQuarter, if_pos (by omega), if_neg (by omega)]
    omega
  · obtain ⟨e, rfl⟩ : ∃ e, d = 90 + e := ⟨d - 90, by omega⟩
    -- the symbols of the header, from two neighbours of one pattern
    have hturn : ∀ {k : ℕ}, 2 ≤ e + k → e + k - 1 < vlsnrWhLen → k + 1 < vlsnrWhLen →
        ((((baseBit (e + k - 2) ^^ rowBit (mc.index - 1) ((e + k - 2) / 56)) ^^
            (baseBit (e + k - 1) ^^ rowBit (mc.index - 1) ((e + k - 1) / 56))) ^^
          ((baseBit k ^^ rowBit i (k / 56)) ^^
            (baseBit (k + 1) ^^ rowBit i ((k + 1) / 56)))) ^^
          decide ((e + k + k) % 2 = 1)) = true →
        (knownQuarter mc (90 + e + k) + 3 * refQuarter i k) % 4
          ≠ (knownQuarter mc (90 + e + (k + 1)) + 3 * refQuarter i (k + 1)) % 4 := by
      intro k htwo hlast hk h
      have hparity : ∀ n b, bpskQuarter n b = bpskQuarter (n + 2) b := fun n b => by
        rw [bpskQuarter, bpskQuarter, Nat.add_mod_right]
      have hx : knownQuarter mc (90 + e + k) = bpskQuarter (e + k)
          (baseBit (e + k - 2) ^^ rowBit (mc.index - 1) ((e + k - 2) / 56)) := by
        rw [show 90 + e + k = 92 + (e + k - 2) by omega, knownQuarter_header hmc (by omega),
          refQuarter_eq (by omega) (by omega), hparity, show e + k - 2 + 2 = e + k by omega]
      have hx' : knownQuarter mc (90 + e + (k + 1)) = bpskQuarter (e + k + 1)
          (baseBit (e + k - 1) ^^ rowBit (mc.index - 1) ((e + k - 1) / 56)) := by
        rw [show 90 + e + (k + 1) = 92 + (e + k - 1) by omega, knownQuarter_header hmc (by omega),
          refQuarter_eq (by omega) (by omega), hparity, show e + k - 1 + 2 = e + k + 1 by omega]
      rw [hx, hx', refQuarter_eq hi (by omega), refQuarter_eq hi hk]
      exact (bpskQuarter_turn _ _ _ _ _ _).mpr h
    by_cases he : e = 2
    · -- the signs of the rows
      subst he
      obtain ⟨row, hrow, hinside, hsign⟩ := rowBit_ne (mc.index - 1) (by omega) i hi
        fun h => hne ⟨rfl, by omega⟩
      refine ⟨56 * row + 55, by omega, by omega, ?_, hturn (by omega) (by omega) (by omega) ?_⟩
      · rwa [show 56 * row + 55 + 1 = 56 * (row + 1) by omega]
      · rw [show 2 + (56 * row + 55) - 2 = 56 * row + 55 by omega,
          show 2 + (56 * row + 55) - 1 = 56 * row + 55 + 1 by omega,
          show (56 * row + 55) / 56 = row by omega,
          show (56 * row + 55 + 1) / 56 = row + 1 by omega,
          decide_eq_false (by omega)]
        revert hsign
        generalize baseBit (56 * row + 55) = x
        generalize baseBit (56 * row + 55 + 1) = x'
        generalize rowBit (mc.index - 1) row = a
        generalize rowBit (mc.index - 1) (row + 1) = a'
        generalize rowBit i row = b
        generalize rowBit i (row + 1) = b'
        revert x x' a a' b b'
        decide
    · obtain ⟨k, hk⟩ := Nat.exists_testBit_of_ne_zero (changeWord_ne_zero e (by omega) he)
      obtain ⟨htwo, hlast, hlt, hinside, hcol, hcol', hchange⟩ := changeWord_spec hk
      refine ⟨k, hlt, by omega, hinside, hturn htwo hlast hlt ?_⟩
      rw [hcols] at hcol hcol'
      rw [show (e + k - 1) / 56 = (e + k - 2) / 56 by omega,
        show (k + 1) / 56 = k / 56 by omega]
      revert hchange
      generalize baseBit (e + k - 2) = x
      generalize baseBit (e + k - 1) = x'
      generalize baseBit k = y
      generalize baseBit (k + 1) = y'
      generalize rowBit (mc.index - 1) ((e + k - 2) / 56) = a
      generalize rowBit i (k / 56) = b
      generalize decide ((e + k + k) % 2 = 1) = p
      revert x x' y y' a b p
      decide

/-! ### Pilots -/

theorem rotFwd_quarter {rn : ℕ} (hrn : rn < 4) (e : ℕ) : rotFwd (quarter e) rn = quarter (e + rn) := by
  interval_cases rn
  · rfl
  · rw [quarter_succ]
    rfl
  · rw [quarter_succ (e + 1), quarter_succ e]
    rfl
  · rw [quarter_succ (e + 2), quarter_succ (e + 1), quarter_succ e, neg_neg]
    rfl

/-- The quarter of the pilot at `i` of the data field. -/
def pilotQuarter (goldIdx i : ℕ) : ℕ :=
  2 * (goldX (900 + i + goldIdx + 131072) + goldY (900 + i + 131072)).val
    + (goldX (900 + i + goldIdx) + goldY (900 + i)).val

theorem modFrame_pilotQuarter {mc : Modcod} (hmc : mc ∈ vlsnrModcodTable) (goldIdx : ℕ)
    (bits : List Bool) {b : ℕ × ℕ} (hb : b ∈ pilotBlocks (buildLayout mc)) {n : ℕ} (hn : n < b.2) :
    (modFrame Sqrt2.exact mc goldIdx bits).getD (990 + (b.1 + n)) 0
      = quarter (pilotQuarter goldIdx (b.1 + n)) := by
  have hpilot : Sqrt2.exact.pilot = quarter 0 := quarter_zero.symm
  have hval : ∀ a : ZMod 2, a.val < 2 := ZMod.val_lt
  have hx := hval (goldX (900 + (b.1 + n) + goldIdx) + goldY (900 + (b.1 + n)))
  have hx' := hval (goldX (900 + (b.1 + n) + goldIdx + 131072) + goldY (900 + (b.1 + n) + 131072))
  rw [modFrame_pilot hmc goldIdx bits _ hb hn, hpilot, rotFwd_quarter (by omega), Nat.zero_add,
    pilotQuarter]

/-- The parity of a pattern. -/
def patternParity (v : ℕ) : Bool := (List.range 18).foldl (fun b j => b ^^ v.testBit j) false

theorem patternParity_eq (v : ℕ) :
    bitVal (ZMod 2) (patternParity v) = ∑ j ∈ range 18, bitVal (ZMod 2) (v.testBit j) := by
  rw [patternParity]
  induction 18 with
  | zero => simp [bitVal]
  | succ n ih => rw [List.range_succ, List.foldl_append, sum_range_succ, ← ih, List.foldl_cons,
      List.foldl_nil, bitVal_xor]

/-- An entry of the `y` sequence is the parity of a power of the root. -/
theorem goldY_eq_parity (k : ℕ) :
    goldY k = bitVal (ZMod 2) (patternParity (expPattern 18 goldPolyY k)) := by
  have hahead := goldY_recurrent.tapSum_expPattern (m := 18) k 0
  rw [Nat.zero_add, tapSum_eq_sum _ (expPattern_lt goldPolyY_cert.toDefiningPoly k)] at hahead
  rw [← hahead, patternParity_eq]
  refine sum_congr rfl fun j hj => ?_
  rw [Nat.zero_add, goldY_low (mem_range.mp hj), mul_one]

/-- The parities of a pattern and of those ahead of it. -/
def aheadWord : ℕ → ℕ → ℕ
  | 0, _ => 0
  | n + 1, v => Nat.bit (patternParity v) (aheadWord n (mulX 18 goldPolyY v))

theorem aheadWord_testBit (n v : ℕ) {k : ℕ} (hk : k < n) :
    (aheadWord n v).testBit k = patternParity ((mulX 18 goldPolyY)^[k] v) := by
  induction n generalizing v k with
  | zero => exact absurd hk (Nat.not_lt_zero k)
  | succ n ih =>
    rw [aheadWord]
    cases k with
    | zero => rw [Nat.testBit_bit_zero, Function.iterate_zero_apply]
    | succ k => rw [Nat.testBit_bit_succ, ih _ (by omega), Function.iterate_succ_apply]

/-- The entries of the `y` sequence at a block. -/
def goldYWord (start : ℕ) : ℕ := aheadWord 36 (powPattern 18 goldPolyY 2 18 (900 + start))

theorem goldYWord_testBit {start k : ℕ} (hstart : start < 4096) (hk : k < 36) :
    goldY (900 + start + k) = bitVal (ZMod 2) ((goldYWord start).testBit k) := by
  rw [goldY_eq_parity, goldYWord, aheadWord_testBit _ _ hk,
    ← expPattern_eq_powPattern goldPolyY_cert (by omega), expPattern, expPattern,
    ← Function.iterate_add_apply, Nat.add_comm]

/-- The blocks that windows of the search lie over. -/
def nearBlocks : VlsnrSet → List (ℕ × ℕ)
  | .set1 => [(540, 36), (1279, 34), (2016, 36), (2755, 34), (3492, 36)]
  | .set2 => [(540, 36), (1280, 32), (2016, 36), (2756, 32), (3492, 36)]

theorem nearBlocks_mem : ∀ mc ∈ vlsnrModcodTable, ∀ b ∈ nearBlocks mc.set, b ∈ modcodBlocks mc := by
  decide +kernel

/-- Where the entries between two pilots that turn by odd numbers of quarters throughout would
break the recurrence of `x`. -/
def brokenWord (start len : ℕ) : ℕ :=
  let w := goldYWord start
  let v := w ^^^ w >>> 1
  (v ^^^ v >>> 7 ^^^ v >>> 18 ^^^ (2 ^ 36 - 1)) % 2 ^ (len - 19)

/-- Wherever a segment ends. -/
theorem brokenWord_breaks : ∀ set, ∀ b ∈ nearBlocks set, ∀ s < 128, ∃ n < 17,
    (brokenWord b.1 b.2).testBit n = true ∧ n ≠ s ∧ n + 7 ≠ s ∧ n + 18 ≠ s := by
  intro set
  cases set with
  | set1 => decide +kernel
  | set2 => decide +kernel

theorem brokenWord_testBit {start len n : ℕ} (hstart : start < 4096) (hn : n < 17)
    (h : (brokenWord start len).testBit n = true) : n + 19 < len ∧
    (goldY (900 + start + n + 18) + goldY (900 + start + n + 19))
      + (goldY (900 + start + n + 7) + goldY (900 + start + n + 8))
      + (goldY (900 + start + n) + goldY (900 + start + n + 1)) = 0 := by
  have hword : ∀ j ≤ 19, goldY (900 + start + n + j)
      = bitVal (ZMod 2) ((goldYWord start).testBit (j + n)) := by
    intro j hj
    rw [Nat.add_assoc, Nat.add_comm n j]
    exact goldYWord_testBit hstart (by omega)
  rw [brokenWord, Nat.testBit_mod_two_pow, Bool.and_eq_true, decide_eq_true_eq] at h
  obtain ⟨hlt, h⟩ := h
  refine ⟨by omega, ?_⟩
  simp only [Nat.testBit_xor, Nat.testBit_shiftRight, Nat.testBit_two_pow_sub_one,
    decide_eq_true (show n < 36 by omega), ← Nat.add_assoc, Nat.reduceAdd] at h
  have h0 := hword 0 (by omega)
  rw [Nat.add_zero, Nat.zero_add] at h0
  rw [hword 18 (by omega), hword 19 (by omega), hword 7 (by omega), hword 8 (by omega), h0,
    hword 1 (by omega)]
  revert h
  generalize (goldYWord start).testBit n = a
  generalize (goldYWord start).testBit (1 + n) = b
  generalize (goldYWord start).testBit (7 + n) = c
  generalize (goldYWord start).testBit (8 + n) = d
  generalize (goldYWord start).testBit (18 + n) = e
  generalize (goldYWord start).testBit (19 + n) = f
  revert a b c d e f
  decide

/-- The parities of two neighbours. -/
theorem pilotQuarter_step {goldIdx i : ℕ}
    (h : pilotQuarter goldIdx i % 2 ≠ pilotQuarter goldIdx (i + 1) % 2) :
    goldX (900 + i + goldIdx) + goldX (900 + i + goldIdx + 1)
      = 1 + (goldY (900 + i) + goldY (900 + i + 1)) := by
  have hval : ∀ a : ZMod 2, a.val < 2 := ZMod.val_lt
  have hz := hval (goldX (900 + i + goldIdx) + goldY (900 + i))
  have hz' := hval (goldX (900 + (i + 1) + goldIdx) + goldY (900 + (i + 1)))
  have hne : (goldX (900 + i + goldIdx) + goldY (900 + i)).val
      ≠ (goldX (900 + i + goldIdx + 1) + goldY (900 + i + 1)).val := by
    rw [pilotQuarter, pilotQuarter, show 900 + (i + 1) + goldIdx = 900 + i + goldIdx + 1 by omega,
      show 900 + (i + 1) = 900 + i + 1 by omega] at h
    omega
  revert hne
  generalize goldX (900 + i + goldIdx) = a
  generalize goldX (900 + i + goldIdx + 1) = a'
  generalize goldY (900 + i) = b
  generalize goldY (900 + i + 1) = b'
  revert a a' b b'
  decide

/-- A block within the window. -/
theorem exists_nearBlock (set : VlsnrSet) {d : ℕ} (hlow : 863 ≤ d) (hhigh : d ≤ 4096) :
    ∃ b ∈ nearBlocks set, d ≤ 990 + b.1 ∧ 990 + b.1 + b.2 ≤ d + 896 ∧ b.1 < 4096 ∧ b.2 ≤ 36 := by
  cases set with
  | set1 =>
    simp only [nearBlocks, List.mem_cons, List.not_mem_nil, or_false, exists_eq_or_imp,
      exists_eq_left]
    omega
  | set2 =>
    simp only [nearBlocks, List.mem_cons, List.not_mem_nil, or_false, exists_eq_or_imp,
      exists_eq_left]
    omega

/-- **Pilots are no header**: for every Gold index the turn changes within a segment, at the pilots,
when a window holds a block of them. -/
theorem pilots_mix {set : VlsnrSet} {r : ℕ → ℕ} (hr : ∀ n, r n % 2 = n % 2) (goldIdx : ℕ) {d : ℕ}
    (hlow : 863 ≤ d) (hhigh : d ≤ 4096) :
    ∃ b ∈ nearBlocks set, ∃ n, n + 1 < b.2 ∧ d ≤ 990 + (b.1 + n) ∧
      990 + (b.1 + n) + 1 < d + vlsnrWhLen ∧ ∃ k, d + k = 990 + (b.1 + n) ∧
      (k + 1) % syncSegLen ≠ 0 ∧
      (pilotQuarter goldIdx (b.1 + n) + 3 * r k) % 4
        ≠ (pilotQuarter goldIdx (b.1 + n + 1) + 3 * r (k + 1)) % 4 := by
  have hwh : vlsnrWhLen = 896 := rfl
  obtain ⟨b, hb, hstart, hend, hnear, hlen⟩ := exists_nearBlock set hlow hhigh
  refine ⟨b, hb, ?_⟩
  by_contra hall
  -- the pilot after which a segment ends
  obtain ⟨s, hs, hends⟩ : ∃ s < 128, ∀ n < 128, n ≠ s → (990 + (b.1 + n) - d + 1) % 128 ≠ 0 :=
    ⟨(128 - (991 + b.1 - d) % 128) % 128, by omega, fun n hn hne => by omega⟩
  obtain ⟨n, hn, hbroken, hne, hne7, hne18⟩ := brokenWord_breaks set b hb s hs
  obtain ⟨hlast, hy⟩ := brokenWord_testBit hnear hn hbroken
  have hstep : ∀ j ≤ 18, n + j ≠ s →
      goldX (900 + (b.1 + n) + goldIdx + j) + goldX (900 + (b.1 + n) + goldIdx + 1 + j)
        = 1 + (goldY (900 + b.1 + n + j) + goldY (900 + b.1 + n + (j + 1))) := by
    intro j hj hjs
    have hparity : pilotQuarter goldIdx (b.1 + (n + j)) % 2
        ≠ pilotQuarter goldIdx (b.1 + (n + j) + 1) % 2 := by
      intro hsame
      have hrk := hr (990 + (b.1 + (n + j)) - d)
      have hrk' := hr (990 + (b.1 + (n + j)) - d + 1)
      exact hall ⟨n + j, by omega, by omega, by omega, 990 + (b.1 + (n + j)) - d, by omega,
        hends (n + j) (by omega) hjs, by omega⟩
    have h := pilotQuarter_step hparity
    rwa [show 900 + (b.1 + (n + j)) + goldIdx = 900 + (b.1 + n) + goldIdx + j by omega,
      show 900 + (b.1 + (n + j)) = 900 + b.1 + n + j by omega, Nat.add_right_comm _ j 1] at h
  have h0 := hstep 0 (by omega) hne
  have h7 := hstep 7 (by omega) hne7
  have h18 := hstep 18 (by omega) hne18
  have hx := goldX_add (900 + (b.1 + n) + goldIdx)
  have hx' := goldX_add (900 + (b.1 + n) + goldIdx + 1)
  have htwo : (2 : ZMod 2) = 0 := rfl
  refine one_ne_zero (α := ZMod 2) ?_
  simp only [Nat.add_zero, Nat.zero_add, Nat.reduceAdd] at h0 h7 h18
  linear_combination -h0 - h7 - h18 + hx + hx' - hy
    + (goldX (900 + (b.1 + n) + goldIdx) + goldX (900 + (b.1 + n) + goldIdx + 1)
      + goldX (900 + (b.1 + n) + goldIdx + 7) + goldX (900 + (b.1 + n) + goldIdx + 1 + 7) - 1) * htwo

/-! ### Windows -/

/-- Behind the conjugate of the reference two neighbours within a segment differ. -/
def WindowMixes (sym ref : List (Cplx ℝ)) (pos : ℕ) : Prop :=
  ∃ k, k + 1 < vlsnrWhLen ∧ (k + 1) % syncSegLen ≠ 0 ∧
    sym.getD (pos + k) 0 * (ref.getD k 0).conj
      ≠ sym.getD (pos + (k + 1)) 0 * (ref.getD (k + 1) 0).conj

theorem quarter_conj_ne {x x' r r' : ℕ} (h : (x + 3 * r) % 4 ≠ (x' + 3 * r') % 4) :
    quarter x * (quarter r).conj ≠ quarter x' * (quarter r').conj := by
  rw [quarter_conj, quarter_conj]
  exact fun heq => h (turns_injective heq)

/-- **Only one window of a frame is a header**: that of its own reference, behind the PL header and
the two symbols before the pattern. -/
theorem modFrame_mixes {mc : Modcod} (hmc : mc ∈ vlsnrModcodTable) {i d : ℕ}
    (hi : i < vlsnrNumModcods) (hd : d ≤ 4096) (hne : ¬(d = 92 ∧ i + 1 = mc.index)) (goldIdx : ℕ)
    (bits : List Bool) :
    WindowMixes (modFrame Sqrt2.exact mc goldIdx bits)
      ((vlsnrReferences Sqrt2.exact).getD i []) d := by
  by_cases hnear : d < 863
  · obtain ⟨k, hk, hknown, hseg, hturn⟩ := headers_mix hmc hi hnear hne
    refine ⟨k, hk, hseg, ?_⟩
    rw [modFrame_known hmc goldIdx bits (by omega), modFrame_known hmc goldIdx bits hknown,
      reference_quarter hi (by omega), reference_quarter hi hk]
    exact quarter_conj_ne hturn
  · have hparity : ∀ n, refQuarter i n % 2 = n % 2 := fun n => bpskQuarter_parity _ _
    obtain ⟨b, hb, n, hn, hlow, hhigh, k, hplace, hseg, hturn⟩ :=
      pilots_mix hparity goldIdx (not_lt.mp hnear) hd
    have hblock : b ∈ pilotBlocks (buildLayout mc) := by
      rw [pilotBlocks_eq]
      exact nearBlocks_mem mc hmc b hb
    have hk : k + 1 < vlsnrWhLen := by omega
    refine ⟨k, hk, hseg, ?_⟩
    rw [hplace, show d + (k + 1) = 990 + (b.1 + (n + 1)) by omega,
      modFrame_pilotQuarter hmc goldIdx bits hblock (by omega),
      modFrame_pilotQuarter hmc goldIdx bits hblock hn, reference_quarter hi (by omega),
      reference_quarter hi hk]
    exact quarter_conj_ne hturn

end OpenVlsnr
