import OpenVlsnr.BchEncode

/-!
# The BCH decoder (`bch_decode.c`)

Syndromes, the Berlekamp-Massey loop, the Chien search and the correction.  The arrays of the
source are lists of `2 * 12 + 1` patterns; a loop that fills one array from another is written
as the list of the values it leaves.
-/

namespace OpenVlsnr

abbrev bchArrayLen : ℕ := 2 * 12 + 1

/-- `struct dvbs2x_bch_decoder`, of which `gen_poly` is never used. -/
structure BchDecoder where
  t : ℕ
  n : ℕ
  k : ℕ
  parityLen : ℕ
  gfM : ℕ

/-- `dvbs2x_bch_decoder_init`. -/
def bchDecoderInit (modcod : Modcod) : BchDecoder where
  t := modcod.bchT
  n := modcod.nBch
  k := modcod.kBch
  parityLen := modcod.nBch - modcod.kBch
  gfM := gfOrder modcod.frameType

/-! ### Syndromes -/

/-- Syndrome `i`: bit `j` of the word goes with `x ^ (n - 1 - j)`. -/
def bchSyndrome (dec : BchDecoder) (gf : GfTables) (codeword : List Bool) (i : ℕ) : ℕ :=
  (List.range dec.n).foldl
    (fun s j =>
      if codeword.getD j false then s ^^^ gf.expTable.getD (i * (dec.n - 1 - j) % gf.n) 0 else s)
    0

/-- The array of syndromes; entry 0 is not used. -/
def bchSyndromes (dec : BchDecoder) (gf : GfTables) (codeword : List Bool) : List ℕ :=
  (List.range bchArrayLen).map fun i =>
    if 1 ≤ i ∧ i ≤ 2 * dec.t then bchSyndrome dec gf codeword i else 0

/-! ### The Berlekamp-Massey loop -/

/-- `sigma`, `b` and `l`. -/
structure BmState where
  sigma : List ℕ
  b : List ℕ
  l : ℕ

/-- The discrepancy of step `n`. -/
def bmDiscrepancy (gf : GfTables) (syndromes : List ℕ) (s : BmState) (n : ℕ) : ℕ :=
  (List.range s.l).foldl
    (fun d i => d ^^^ gfMul gf (s.sigma.getD (i + 1) 0) (syndromes.getD (n - (i + 1)) 0))
    (syndromes.getD n 0)

/-- `b(x) -> x * b(x)`; the loop runs from the top down, so every entry moves up by one. -/
def bmShift (t : ℕ) (b : List ℕ) : List ℕ :=
  (List.range bchArrayLen).map fun i =>
    if i = 0 then 0 else if i ≤ 2 * t then b.getD (i - 1) 0 else b.getD i 0

/-- `sigma(x) - d * x * b(x)`. -/
def bmUpdate (gf : GfTables) (t d : ℕ) (s : BmState) : List ℕ :=
  (List.range bchArrayLen).map fun i =>
    if 1 ≤ i ∧ i ≤ 2 * t ∧ s.b.getD (i - 1) 0 ≠ 0 then
      s.sigma.getD i 0 ^^^ gfMul gf d (s.b.getD (i - 1) 0)
    else s.sigma.getD i 0

/-- `sigma(x) / d`, the next `b(x)` when the length changes. -/
def bmScale (gf : GfTables) (t d : ℕ) (s : BmState) : List ℕ :=
  (List.range bchArrayLen).map fun i =>
    if i ≤ 2 * t then gfMul gf (s.sigma.getD i 0) (gfInv gf d) else s.b.getD i 0

/-- Step `n` of the loop. -/
def bmStep (gf : GfTables) (t : ℕ) (syndromes : List ℕ) (s : BmState) (n : ℕ) : BmState :=
  let d := bmDiscrepancy gf syndromes s n
  if d = 0 then { s with b := bmShift t s.b }
  else if 2 * s.l ≤ n - 1 then ⟨bmUpdate gf t d s, bmScale gf t d s, n - s.l⟩
  else ⟨bmUpdate gf t d s, bmShift t s.b, s.l⟩

/-- The state before the first step. -/
def bmInit : BmState :=
  ⟨1 :: List.replicate (bchArrayLen - 1) 0, 1 :: List.replicate (bchArrayLen - 1) 0, 0⟩

/-- The whole loop. -/
def berlekampMassey (gf : GfTables) (t : ℕ) (syndromes : List ℕ) : BmState :=
  ((List.range (2 * t)).map (· + 1)).foldl (bmStep gf t syndromes) bmInit

/-! ### The Chien search -/

/-- `sigma(alpha^i)`. -/
def chienEval (gf : GfTables) (sigma : List ℕ) (numErrors i : ℕ) : ℕ :=
  (List.range numErrors).foldl
    (fun eval k =>
      if sigma.getD (k + 1) 0 ≠ 0 then
        eval ^^^ gf.expTable.getD
          (((gf.logTable.getD (sigma.getD (k + 1) 0) 0).toNat + (k + 1) * i) % gf.n) 0
      else eval)
    (sigma.getD 0 0)

/-- The polynomial position of the root `alpha^i`. -/
def chienPolyPos (gf : GfTables) (i : ℕ) : ℕ := (gf.n - i) % gf.n

/-- The search over the exponents still to be tried; it breaks off once `num_errors` error
locations have been found. -/
def chienSearch (dec : BchDecoder) (gf : GfTables) (sigma : List ℕ) (numErrors : ℕ) :
    List ℕ → List ℕ → List ℕ
  | [], locs => locs
  | i :: is, locs =>
      if chienEval gf sigma numErrors i = 0 then
        if dec.n ≤ chienPolyPos gf i then chienSearch dec gf sigma numErrors is locs
        else
          let locs := locs ++ [dec.n - 1 - chienPolyPos gf i]
          if numErrors ≤ locs.length then locs
          else chienSearch dec gf sigma numErrors is locs
      else chienSearch dec gf sigma numErrors is locs

/-! ### Decoding -/

/-- `codeword[error_locs[i]] ^= 1`. -/
def flipLocs (codeword : List Bool) (locs : List ℕ) : List Bool :=
  locs.foldl (fun w p => w.modify p not) codeword

/-- `dvbs2x_bch_decode`: the return value and the word left in the buffer. -/
def bchDecode (dec : BchDecoder) (codeword : List Bool) : ℤ × List Bool :=
  let gf := gfInit dec.gfM
  let syndromes := bchSyndromes dec gf codeword
  if ∀ i ∈ List.range (2 * dec.t), syndromes.getD (i + 1) 0 = 0 then (0, codeword)
  else
    let s := berlekampMassey gf dec.t syndromes
    if dec.t < s.l then (-1, codeword)
    else
      let locs := chienSearch dec gf s.sigma s.l (List.range gf.n) []
      if locs.length ≠ s.l then (-1, codeword) else (s.l, flipLocs codeword locs)

end OpenVlsnr
