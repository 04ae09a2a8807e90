import OpenVlsnr.Demodulator

/-!
# What a receive call can do

`SymbolsOutcome` lists the exits of `dvbs2x_demodulate_bbframe_symbols_ex`, each with the context
it leaves behind, and `demodulateBbframeSymbols_outcome` says that there are no others.
`DecodeOutcome` does the same for both kinds of output.  The conditions of the exits are pure
functions of the context and the symbols:

* `detected` - the header the call acts on;
* `frameFits` - the length check on the data field;
* `frameBits` - the BCH word of the frame, or the code of its failure;
* `outputNeed` - the output bits of the frame.
-/

namespace OpenVlsnr

section
variable {R : Type*} [Field R] [LinearOrder R]

/-! ### The conditions -/

/-- The header that a call acts on. -/
def detected (rx : RxStages R) (demod : Demodulator R) (input : List (Cplx R)) :
    Option (Modcod × HeaderSync R) :=
  if demod.cancelRequested ∨ input.length < plheaderLen + vlsnrWhLen then none
  else
    let sync := headerSearch rx demod (preCorrect rx demod input) input.length
    if sync.conf < 9 / 20 then none else (vlsnrGetModcod sync.modcodIdx).map fun mc => (mc, sync)

omit [Field R] [LinearOrder R] in
/-- The data field ends within the `inLen` symbols. -/
def frameFits (mc : Modcod) (sync : HeaderSync R) (inLen : ℕ) : Prop :=
  (dataStart sync.offset + (buildLayout mc).fieldLen) % 2 ^ 32 ≤ inLen

instance (mc : Modcod) (sync : HeaderSync R) (inLen : ℕ) : Decidable (frameFits mc sync inLen) :=
  inferInstanceAs (Decidable (_ ≤ _))

/-- The symbols of a frame at nominal level. -/
def frameWork (rx : RxStages R) (demod : Demodulator R) (input : List (Cplx R)) (mc : Modcod)
    (sync : HeaderSync R) : List (Cplx R) :=
  rx.normalizeInputLevel mc sync.offset (preCorrect rx demod input)

/-- The AFC after a frame. -/
def frameAfc (rx : RxStages R) (demod : Demodulator R) (input : List (Cplx R)) (mc : Modcod)
    (sync : HeaderSync R) : Afc R :=
  if demod.state ≠ .search then
    afcUpdate demod.afc (rx.afcRaw mc sync.offset (frameWork rx demod input mc sync))
  else demod.afc

/-- The BCH word of a frame, or the code of its failure. -/
def frameBits (rx : RxStages R) (demod : Demodulator R) (input : List (Cplx R)) (noiseVar : R)
    (mc : Modcod) (sync : HeaderSync R) : Except ℤ (List Bool) :=
  let work := frameWork rx demod input mc sync
  let nvEst := rx.estimateNoiseVar mc sync.offset work
  match frameDecoder demod.ldpcDec mc with
  | none => .error errNomem
  | some dec =>
      frameFec rx demod mc dec (ldpcIterLimit demod.maxLdpcIterations (rx.esn0 nvEst))
        (frameLlr rx demod.goldIdx mc sync.offset noiseVar nvEst work)

/-- The frame that the symbols hold. -/
def frameContent (rx : RxStages R) (demod : Demodulator R) (input : List (Cplx R))
    (noiseVar : R) : Option (Modcod × List Bool) :=
  match detected rx demod input with
  | none => none
  | some (mc, sync) =>
      if frameFits mc sync input.length then
        match frameBits rx demod input noiseVar mc sync with
        | .error _ => none
        | .ok bchCw => some (mc, bchCw.take mc.kBch)
      else none

/-- The number of output bits of the frame that the symbols hold: `k_bch`, or the user data of a
frame whose header is accepted. -/
def outputNeed (rx : RxStages R) (demod : Demodulator R) (input : List (Cplx R)) (noiseVar : R)
    (returnBbframe : Bool) : Option ℕ :=
  match frameContent rx demod input noiseVar with
  | none => none
  | some (mc, bits) =>
      if returnBbframe then some mc.kBch
      else
        let parse := bbFrameParseEx (bbFrameInit mc .gs) bits [] 0
        if parse.ret < 0 ∧ parse.ret ≠ errShort then none else some parse.userLen

/-- A detected MODCOD is the row that the correlator named. -/
theorem detected_row {rx : RxStages R} {demod : Demodulator R} {input : List (Cplx R)}
    {mc : Modcod} {sync : HeaderSync R} (h : detected rx demod input = some (mc, sync)) :
    vlsnrGetModcod sync.modcodIdx = some mc := by
  unfold detected at h
  extract_lets sync' at h
  split_ifs at h
  obtain ⟨mc', hrow, hpair⟩ := Option.map_eq_some_iff.mp h
  obtain rfl : mc' = mc := congrArg Prod.fst hpair
  obtain rfl : sync' = sync := congrArg Prod.snd hpair
  exact hrow

theorem detected_mem {rx : RxStages R} {demod : Demodulator R} {input : List (Cplx R)}
    {mc : Modcod} {sync : HeaderSync R} (h : detected rx demod input = some (mc, sync)) :
    mc ∈ vlsnrModcodTable :=
  vlsnrGetModcod_mem (detected_row h)

theorem detected_modcodIdx {rx : RxStages R} {demod : Demodulator R} {input : List (Cplx R)}
    {mc : Modcod} {sync : HeaderSync R} (h : detected rx demod input = some (mc, sync)) :
    sync.modcodIdx ≠ 0 := by
  intro hzero
  have hrow := detected_row h
  rw [hzero] at hrow
  cases hrow

/-! ### The contexts that a call leaves behind -/

/-- After an identified header. -/
def Demodulator.predict (demod : Demodulator R) (mc : Modcod) (sync : HeaderSync R)
    (stats : DemodStats R) : Demodulator R :=
  { demod with
    modcod := some mc
    predictedWhStart := sync.offset
    haveWhPrediction := true
    lastStats := stats }

/-- After an attempt at error correction. -/
def Demodulator.received (demod : Demodulator R) (mc : Modcod) (sync : HeaderSync R)
    (afc : Afc R) (dec : LdpcDecoder) (cancelRequested : Bool) (stats : DemodStats R) :
    Demodulator R :=
  { demod.predict mc sync stats with
    afc := afc
    ldpcDec := some dec
    cancelRequested := cancelRequested }

/-! ### The decoder cache -/

/-- Every MODCOD has a decoder. -/
theorem ldpcDecoderInit_isSome {mc : Modcod} (hmc : mc ∈ vlsnrModcodTable) (maxIter : ℕ) :
    ∃ dec, ldpcDecoderInit mc maxIter = some dec := by
  obtain ⟨code, hcode, -⟩ := modcod_ldpcCode mc hmc
  rw [ldpcDecoderInit, hcode]
  exact ⟨_, rfl⟩

theorem frameDecoder_isSome (cached : Option LdpcDecoder) {mc : Modcod}
    (hmc : mc ∈ vlsnrModcodTable) : ∃ dec, frameDecoder cached mc = some dec := by
  have hinit := ldpcDecoderInit_isSome hmc ldpcMaxIter
  cases cached with
  | none => exact hinit
  | some dec =>
    dsimp only [frameDecoder]
    split_ifs with hdim
    · exact hinit
    · exact ⟨dec, rfl⟩

/-! ### The exits on BBFRAME level -/

/-- The exits of `dvbs2x_demodulate_bbframe_symbols_ex`. -/
inductive SymbolsOutcome (rx : RxStages R) (demod : Demodulator R) (input : List (Cplx R))
    (noiseVar : R) (output : List Bool) (capacity : ℕ) : RxCall R → Prop
  | invalid : noiseVar < 0 →
      SymbolsOutcome rx demod input noiseVar output capacity ⟨errParam, demod, output, 0⟩
  | unheard {ret : ℤ} {stats : DemodStats R} :
      detected rx demod input = none →
      ret = errCancelled ∨ ret = errShort ∨ ret = errNosync → stats.modcod = 0 →
      SymbolsOutcome rx demod input noiseVar output capacity
        ⟨ret, { demod with lastStats := stats }, output, 0⟩
  | incomplete {mc : Modcod} {sync : HeaderSync R} {stats : DemodStats R} :
      detected rx demod input = some (mc, sync) → ¬ frameFits mc sync input.length →
      stats.modcod = sync.modcodIdx →
      SymbolsOutcome rx demod input noiseVar output capacity
        ⟨errShort, demod.predict mc sync stats, output, 0⟩
  | failed {mc : Modcod} {sync : HeaderSync R} {dec : LdpcDecoder} {stats : DemodStats R} {e : ℤ} :
      detected rx demod input = some (mc, sync) → frameFits mc sync input.length →
      frameDecoder demod.ldpcDec mc = some dec →
      frameBits rx demod input noiseVar mc sync = .error e →
      e = errCancelled ∨ e = errCrc → stats.modcod = sync.modcodIdx →
      SymbolsOutcome rx demod input noiseVar output capacity
        ⟨e, demod.received mc sync (frameAfc rx demod input mc sync) dec (cancelAfter rx demod) stats,
          output, 0⟩
  | full {mc : Modcod} {sync : HeaderSync R} {dec : LdpcDecoder} {stats : DemodStats R}
      {bchCw : List Bool} :
      detected rx demod input = some (mc, sync) → frameFits mc sync input.length →
      frameDecoder demod.ldpcDec mc = some dec →
      frameBits rx demod input noiseVar mc sync = .ok bchCw →
      capacity < mc.kBch → stats.modcod = sync.modcodIdx →
      SymbolsOutcome rx demod input noiseVar output capacity
        ⟨errShort,
          demod.received mc sync (frameAfc rx demod input mc sync) dec (cancelAfter rx demod) stats,
          output, mc.kBch⟩
  | delivered {mc : Modcod} {sync : HeaderSync R} {dec : LdpcDecoder} {stats : DemodStats R}
      {bchCw : List Bool} :
      detected rx demod input = some (mc, sync) → frameFits mc sync input.length →
      frameDecoder demod.ldpcDec mc = some dec →
      frameBits rx demod input noiseVar mc sync = .ok bchCw →
      mc.kBch ≤ capacity → stats.modcod = sync.modcodIdx →
      SymbolsOutcome rx demod input noiseVar output capacity
        ⟨ok,
          demod.received mc sync (frameAfc rx demod input mc sync) dec (cancelAfter rx demod) stats,
          memcpyAt output 0 (bchCw.take mc.kBch), mc.kBch⟩

theorem frameFec_error {rx : RxStages R} {demod : Demodulator R} {mc : Modcod} {dec : LdpcDecoder}
    {limit : ℕ} {llr : List R} {e : ℤ} (h : frameFec rx demod mc dec limit llr = .error e) :
    e = errCancelled ∨ e = errCrc := by
  unfold frameFec at h
  extract_lets at h
  split_ifs at h
  · exact Or.inl (Except.error.inj h).symm
  · exact Or.inr (Except.error.inj h).symm

/-- From the length check on. -/
theorem demodulateFrame_outcome {rx : RxStages R} {demod : Demodulator R} {input : List (Cplx R)}
    {mc : Modcod} {sync : HeaderSync R} (noiseVar : R) (output : List Bool) (capacity : ℕ)
    (hdet : detected rx demod input = some (mc, sync)) (hmc : mc ∈ vlsnrModcodTable) :
    SymbolsOutcome rx demod input noiseVar output capacity
      (demodulateFrame rx (demod.clearStats.identify mc sync) mc sync.offset
        (preCorrect rx demod input) input.length noiseVar output capacity) := by
  unfold demodulateFrame
  by_cases hfits : frameFits mc sync input.length
  · obtain ⟨dec, hdec⟩ := frameDecoder_isSome demod.ldpcDec hmc
    rw [if_neg (Nat.not_lt.mpr hfits)]
    extract_lets limit work nvEst measured llr
    have hcached : frameDecoder measured.ldpcDec mc = some dec := hdec
    have hbits : frameBits rx demod input noiseVar mc sync
        = frameFec rx measured mc dec (ldpcIterLimit limit (rx.esn0 nvEst)) llr := by
      unfold frameBits
      rw [hdec]
      rfl
    rw [hcached]
    show SymbolsOutcome rx demod input noiseVar output capacity
      (match frameFec rx measured mc dec (ldpcIterLimit limit (rx.esn0 nvEst)) llr with
        | .error e => _
        | .ok bchCw => _)
    cases hfec : frameFec rx measured mc dec (ldpcIterLimit limit (rx.esn0 nvEst)) llr with
    | error e =>
      exact .failed hdet hfits hdec (hbits.trans hfec) (frameFec_error hfec) rfl
    | ok bchCw =>
      show SymbolsOutcome rx demod input noiseVar output capacity (if _ then _ else _)
      by_cases hcap : capacity < mc.kBch
      · rw [if_pos hcap]
        exact .full hdet hfits hdec (hbits.trans hfec) hcap rfl
      · rw [if_neg hcap]
        exact .delivered hdet hfits hdec (hbits.trans hfec) (Nat.not_lt.mp hcap) rfl
  · rw [if_pos (Nat.not_le.mp hfits)]
    exact .incomplete hdet hfits rfl

/-- **There are no other exits.** -/
theorem demodulateBbframeSymbols_outcome (rx : RxStages R) (demod : Demodulator R)
    (input : List (Cplx R)) (noiseVar : R) (output : List Bool) (capacity : ℕ) :
    SymbolsOutcome rx demod input noiseVar output capacity
      (demodulateBbframeSymbols rx demod input noiseVar output capacity) := by
  unfold demodulateBbframeSymbols
  by_cases hnoise : noiseVar < 0
  · rw [if_pos hnoise]
    exact .invalid hnoise
  rw [if_neg hnoise]
  extract_lets cleared work sync unidentified
  by_cases hcancel : demod.cancelRequested
  · rw [if_pos (show cleared.cancelRequested = true from hcancel)]
    exact .unheard (by rw [detected, if_pos (Or.inl hcancel)]) (Or.inl rfl) rfl
  rw [if_neg (show ¬ cleared.cancelRequested = true from hcancel)]
  by_cases hlen : input.length < plheaderLen + vlsnrWhLen
  · rw [if_pos hlen]
    exact .unheard (by rw [detected, if_pos (Or.inr hlen)]) (Or.inr (Or.inl rfl)) rfl
  rw [if_neg hlen]
  have hdetected : detected rx demod input = if sync.conf < 9 / 20 then none
      else (vlsnrGetModcod sync.modcodIdx).map fun mc => (mc, sync) := by
    rw [detected, if_neg (not_or.mpr ⟨hcancel, hlen⟩)]
    rfl
  by_cases hconf : sync.conf < 9 / 20
  · rw [if_pos hconf]
    exact .unheard (hdetected.trans (if_pos hconf)) (Or.inr (Or.inr rfl)) rfl
  rw [if_neg hconf]
  rw [if_neg hconf] at hdetected
  cases hrow : vlsnrGetModcod sync.modcodIdx with
  | none =>
    rw [hrow] at hdetected
    exact .unheard hdetected (Or.inr (Or.inr rfl)) rfl
  | some mc =>
    rw [hrow] at hdetected
    exact demodulateFrame_outcome noiseVar output capacity hdetected (vlsnrGetModcod_mem hrow)

/-! ### The exits by kind of output -/

/-- The exits of both calls.  A frame that is not delivered for want of room is `full`, whatever
the call was asked for. -/
inductive DecodeOutcome (rx : RxStages R) (demod : Demodulator R) (input : List (Cplx R))
    (noiseVar : R) (capacity : ℕ) (returnBbframe : Bool) : RxCall R → Prop
  | invalid {output : List Bool} : noiseVar < 0 →
      DecodeOutcome rx demod input noiseVar capacity returnBbframe ⟨errParam, demod, output, 0⟩
  | unheard {ret : ℤ} {stats : DemodStats R} {output : List Bool} :
      detected rx demod input = none →
      outputNeed rx demod input noiseVar returnBbframe = none →
      ret = errCancelled ∨ ret = errShort ∨ ret = errNosync → stats.modcod = 0 →
      DecodeOutcome rx demod input noiseVar capacity returnBbframe
        ⟨ret, { demod with lastStats := stats }, output, 0⟩
  | incomplete {mc : Modcod} {sync : HeaderSync R} {stats : DemodStats R} {output : List Bool} :
      detected rx demod input = some (mc, sync) →
      outputNeed rx demod input noiseVar returnBbframe = none → stats.modcod = sync.modcodIdx →
      DecodeOutcome rx demod input noiseVar capacity returnBbframe
        ⟨errShort, demod.predict mc sync stats, output, 0⟩
  | failed {mc : Modcod} {sync : HeaderSync R} {dec : LdpcDecoder} {stats : DemodStats R}
      {e : ℤ} {output : List Bool} :
      detected rx demod input = some (mc, sync) → frameDecoder demod.ldpcDec mc = some dec →
      outputNeed rx demod input noiseVar returnBbframe = none →
      e = errCancelled ∨ e = errCrc → stats.modcod = sync.modcodIdx →
      DecodeOutcome rx demod input noiseVar capacity returnBbframe
        ⟨e, demod.received mc sync (frameAfc rx demod input mc sync) dec (cancelAfter rx demod) stats,
          output, 0⟩
  | full {mc : Modcod} {sync : HeaderSync R} {dec : LdpcDecoder} {stats : DemodStats R} {need : ℕ}
      {output : List Bool} :
      detected rx demod input = some (mc, sync) → frameDecoder demod.ldpcDec mc = some dec →
      outputNeed rx demod input noiseVar returnBbframe = some need →
      capacity < need → stats.modcod = sync.modcodIdx →
      DecodeOutcome rx demod input noiseVar capacity returnBbframe
        ⟨errShort,
          demod.received mc sync (frameAfc rx demod input mc sync) dec (cancelAfter rx demod) stats,
          output, need⟩
  | delivered {mc : Modcod} {sync : HeaderSync R} {dec : LdpcDecoder} {stats : DemodStats R}
      {need : ℕ} {output : List Bool} :
      detected rx demod input = some (mc, sync) → frameDecoder demod.ldpcDec mc = some dec →
      outputNeed rx demod input noiseVar returnBbframe = some need →
      need ≤ capacity → stats.modcod = sync.modcodIdx →
      DecodeOutcome rx demod input noiseVar capacity returnBbframe
        ⟨ok,
          demod.received mc sync (frameAfc rx demod input mc sync) dec (cancelAfter rx demod) stats,
          output, need⟩

/-- The parser fails whatever the buffer is, or all that matters is whether `dfl` bits have
room. -/
theorem bbFrameParseEx_cases (ctx : BbFrameCtx) (bbframe : List Bool) :
    (∃ e : ℤ, (e < 0 ∧ e ≠ errShort) ∧
        ∀ userData capacity, bbFrameParseEx ctx bbframe userData capacity = ⟨e, userData, 0⟩) ∨
      ∃ (dfl : ℕ) (field : List Bool), ∀ userData capacity,
        bbFrameParseEx ctx bbframe userData capacity
          = if capacity < dfl then ⟨errShort, userData, dfl⟩
            else ⟨ok, memcpyAt userData 0 field, dfl⟩ := by
  by_cases hsize : ctx.kBch > ldpcNormal
  · exact Or.inl ⟨errParam, by decide, fun userData capacity => if_pos hsize⟩
  let descrambled := bbScramble (bbframe.take ctx.kBch) ctx.kBch
  let bytes := fun i => bitsByte descrambled (i * 8)
  by_cases hcrc : bbCrc8 ((List.range 9).map bytes) ≠ bytes 9
  · exact Or.inl ⟨-1, by decide, fun userData capacity => (if_neg hsize).trans (if_pos hcrc)⟩
  by_cases hfields : bytes 0 &&& 0xc0 ≠ 0x40 ∨ bytes 2 ≠ 0 ∨ bytes 3 ≠ 0
  · exact Or.inl ⟨errParam, by decide, fun userData capacity =>
      ((if_neg hsize).trans (if_neg hcrc)).trans (if_pos hfields)⟩
  · exact Or.inr ⟨_, _, fun userData capacity =>
      ((if_neg hsize).trans (if_neg hcrc)).trans (if_neg hfields)⟩

/-- The user data of a frame is shorter than the frame. -/
theorem bbFrameParseEx_userLen_le (ctx : BbFrameCtx) (bbframe userData : List Bool)
    (capacity : ℕ) : (bbFrameParseEx ctx bbframe userData capacity).userLen ≤ ctx.kBch := by
  have hclamp : ∀ dfl : ℕ,
      (if dfl > ctx.kBch - bbHeaderBits then (ctx.kBch - bbHeaderBits) % 2 ^ 16 else dfl)
        ≤ ctx.kBch := by
    intro dfl
    split_ifs with h
    · exact (Nat.mod_le _ _).trans (Nat.sub_le _ _)
    · exact (Nat.not_lt.mp h).trans (Nat.sub_le _ _)
  unfold bbFrameParseEx
  extract_lets descrambled bytes dfl dfl'
  have hle : dfl' ≤ ctx.kBch := hclamp dfl
  split_ifs
  · exact Nat.zero_le _
  · exact Nat.zero_le _
  · exact Nat.zero_le _
  · exact hle
  · exact hle

/-- A frame has a MODCOD of the table. -/
theorem frameContent_mem {rx : RxStages R} {demod : Demodulator R} {input : List (Cplx R)}
    {noiseVar : R} {mc : Modcod} {bits : List Bool}
    (h : frameContent rx demod input noiseVar = some (mc, bits)) : mc ∈ vlsnrModcodTable := by
  unfold frameContent at h
  cases hdet : detected rx demod input with
  | none =>
    rw [hdet] at h
    cases h
  | some p =>
    obtain ⟨mc', sync⟩ := p
    rw [hdet] at h
    dsimp only at h
    split_ifs at h
    split at h
    · cases h
    · cases h
      exact detected_mem hdet

theorem frameContent_of_ok {rx : RxStages R} {demod : Demodulator R} {input : List (Cplx R)}
    {noiseVar : R} {mc : Modcod} {sync : HeaderSync R} {bchCw : List Bool}
    (hdet : detected rx demod input = some (mc, sync)) (hfits : frameFits mc sync input.length)
    (hbits : frameBits rx demod input noiseVar mc sync = .ok bchCw) :
    frameContent rx demod input noiseVar = some (mc, bchCw.take mc.kBch) := by
  unfold frameContent
  rw [hdet]
  dsimp only
  rw [if_pos hfits, hbits]

theorem frameContent_of_error {rx : RxStages R} {demod : Demodulator R} {input : List (Cplx R)}
    {noiseVar : R} {mc : Modcod} {sync : HeaderSync R} {e : ℤ}
    (hdet : detected rx demod input = some (mc, sync))
    (hbits : frameBits rx demod input noiseVar mc sync = .error e) :
    frameContent rx demod input noiseVar = none := by
  unfold frameContent
  rw [hdet]
  dsimp only
  rw [hbits]
  exact ite_self none

theorem frameContent_of_incomplete {rx : RxStages R} {demod : Demodulator R}
    {input : List (Cplx R)} {noiseVar : R} {mc : Modcod} {sync : HeaderSync R}
    (hdet : detected rx demod input = some (mc, sync))
    (hfits : ¬ frameFits mc sync input.length) :
    frameContent rx demod input noiseVar = none := by
  unfold frameContent
  rw [hdet]
  exact if_neg hfits

theorem frameContent_of_undetected {rx : RxStages R} {demod : Demodulator R}
    {input : List (Cplx R)} (noiseVar : R) (hdet : detected rx demod input = none) :
    frameContent rx demod input noiseVar = none := by
  unfold frameContent
  rw [hdet]

theorem outputNeed_of_none {rx : RxStages R} {demod : Demodulator R} {input : List (Cplx R)}
    {noiseVar : R} (returnBbframe : Bool) (h : frameContent rx demod input noiseVar = none) :
    outputNeed rx demod input noiseVar returnBbframe = none := by
  unfold outputNeed
  rw [h]

/-- On BBFRAME level the need is `k_bch`. -/
theorem SymbolsOutcome.decodeOutcome {rx : RxStages R} {demod : Demodulator R}
    {input : List (Cplx R)} {noiseVar : R} {output : List Bool} {capacity : ℕ} {call : RxCall R}
    (h : SymbolsOutcome rx demod input noiseVar output capacity call) :
    DecodeOutcome rx demod input noiseVar capacity true call := by
  have hneed : ∀ {mc : Modcod} {bits : List Bool},
      frameContent rx demod input noiseVar = some (mc, bits) →
      outputNeed rx demod input noiseVar true = some mc.kBch := by
    intro mc bits hcontent
    unfold outputNeed
    rw [hcontent]
    rfl
  cases h with
  | invalid hnoise => exact .invalid hnoise
  | unheard hdet hret hstats =>
    exact .unheard hdet (outputNeed_of_none true (frameContent_of_undetected noiseVar hdet)) hret
      hstats
  | incomplete hdet hfits hstats =>
    exact .incomplete hdet (outputNeed_of_none true (frameContent_of_incomplete hdet hfits)) hstats
  | failed hdet hfits hdec hbits he hstats =>
    exact .failed hdet hdec (outputNeed_of_none true (frameContent_of_error hdet hbits)) he hstats
  | full hdet hfits hdec hbits hcap hstats =>
    exact .full hdet hdec (hneed (frameContent_of_ok hdet hfits hbits)) hcap hstats
  | delivered hdet hfits hdec hbits hcap hstats =>
    exact .delivered hdet hdec (hneed (frameContent_of_ok hdet hfits hbits)) hcap hstats

/-- The user data call, from the exits of the BBFRAME call that it makes with room for any
frame. -/
theorem demodulateSymbols_outcome (rx : RxStages R) (demod : Demodulator R)
    (input : List (Cplx R)) (noiseVar : R) (userData : List Bool) (capacity : ℕ) :
    DecodeOutcome rx demod input noiseVar capacity false
      (demodulateSymbols rx demod input noiseVar userData capacity) := by
  have h := demodulateBbframeSymbols_outcome rx demod input noiseVar [] ldpcNormal
  have hunheard : ∀ {ret : ℤ}, ret = errCancelled ∨ ret = errShort ∨ ret = errNosync → ret < 0 := by
    rintro ret (rfl | rfl | rfl) <;> decide
  have hfailed : ∀ {e : ℤ}, e = errCancelled ∨ e = errCrc → e < 0 := by
    rintro e (rfl | rfl) <;> decide
  unfold demodulateSymbols
  generalize demodulateBbframeSymbols rx demod input noiseVar [] ldpcNormal = call at h
  dsimp only
  cases h with
  | invalid hnoise => exact .invalid hnoise
  | unheard hdet hret hstats =>
    rw [if_pos (hunheard hret)]
    exact .unheard hdet (outputNeed_of_none false (frameContent_of_undetected noiseVar hdet)) hret
      hstats
  | incomplete hdet hfits hstats =>
    exact .incomplete hdet (outputNeed_of_none false (frameContent_of_incomplete hdet hfits)) hstats
  | failed hdet hfits hdec hbits he hstats =>
    rw [if_pos (hfailed he)]
    exact .failed hdet hdec (outputNeed_of_none false (frameContent_of_error hdet hbits)) he hstats
  | full hdet hfits hdec hbits hcap hstats =>
    -- 64800 bits hold a frame of any MODCOD
    exact absurd (modcod_geometry _ (detected_mem hdet)).2.1 (Nat.not_le.mpr hcap)
  | @delivered mc sync dec stats bchCw hdet hfits hdec hbits hcap hstats =>
    have hcontent := frameContent_of_ok hdet hfits hbits
    have hneed : outputNeed rx demod input noiseVar false
        = let parse := bbFrameParseEx (bbFrameInit mc .gs) (bchCw.take mc.kBch) [] 0
          if parse.ret < 0 ∧ parse.ret ≠ errShort then none else some parse.userLen := by
      unfold outputNeed
      rw [hcontent]
      rfl
    have hbuf : memcpyAt [] 0 (bchCw.take mc.kBch) = bchCw.take mc.kBch := by
      simp [memcpyAt]
    dsimp only [Demodulator.received, Demodulator.predict]
    rw [if_neg (show ¬ ok < 0 by decide), if_neg (not_not.mpr rfl), hbuf]
    rcases bbFrameParseEx_cases (bbFrameInit mc .gs) (bchCw.take mc.kBch) with
      ⟨e, he, hparse⟩ | ⟨dfl, field, hparse⟩
    · rw [hparse] at hneed
      rw [hparse, if_pos he]
      exact .failed hdet hdec (hneed.trans (if_pos he)) (Or.inr rfl) hstats
    · have hprobe : outputNeed rx demod input noiseVar false = some dfl := by
        rw [hneed, hparse]
        by_cases hzero : 0 < dfl
        · rw [if_pos hzero]
          exact if_neg fun h => h.2 rfl
        · rw [if_neg hzero]
          exact if_neg fun h => absurd h.1 (lt_irrefl ok)
      rw [hparse]
      by_cases hroom : capacity < dfl
      · rw [if_pos hroom]
        exact .full hdet hdec hprobe hroom hstats
      · rw [if_neg hroom]
        exact .delivered hdet hdec hprobe (Nat.not_lt.mp hroom) hstats

/-- **The exits of both calls.** -/
theorem decodeSymbols_outcome (rx : RxStages R) (demod : Demodulator R) (input : List (Cplx R))
    (noiseVar : R) (output : List Bool) (capacity : ℕ) (returnBbframe : Bool) :
    DecodeOutcome rx demod input noiseVar capacity returnBbframe
      (decodeSymbols rx demod input noiseVar output capacity returnBbframe) := by
  cases returnBbframe with
  | true => exact (demodulateBbframeSymbols_outcome rx demod input noiseVar output capacity).decodeOutcome
  | false => exact demodulateSymbols_outcome rx demod input noiseVar output capacity

end

end OpenVlsnr
