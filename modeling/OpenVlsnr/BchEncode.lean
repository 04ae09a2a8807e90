import OpenVlsnr.Types
import OpenVlsnr.GfTables

/-!
# The BCH encoder (`bch_encode.c`)

`dvbs2x_bch_encoder_init` multiplies together the minimal polynomials of `α, ..., α ^ (2 * t)`,
each found by Gaussian elimination on successive powers (`compute_min_poly`) and each taken once
because the conjugates of its root are marked.  `dvbs2x_bch_encode` divides by the product in a
shift register.

Polynomials are bit arrays, constant coefficient first; the minimal polynomials themselves are
bit patterns.
-/

namespace OpenVlsnr

abbrev bchMaxParity : ℕ := 192

/-- The field order that goes with a frame type. -/
def gfOrder : FrameType → ℕ
  | .normal => 16
  | .medium => 15
  | .short => 14

/-! ### Minimal polynomials -/

/-- The echelon form of `compute_min_poly`: `matrix[i]` has its lowest bit at `i`, and a zero
in `pivot_col[i]` says that there is no such row. -/
structure Elimination where
  matrix : List ℕ
  pivotCol : List ℕ

/-- Reduce one vector, from the lowest bit up; `row_bits` tracks which powers contribute. -/
def minPolyReduce (m : ℕ) (e : Elimination) (vec rowBits : ℕ) : ℕ × ℕ :=
  (List.range m).foldl
    (fun r i =>
      if r.1.testBit i ∧ e.pivotCol.getD i 0 ≠ 0 then
        (r.1 ^^^ e.matrix.getD i 0, r.2 ^^^ e.pivotCol.getD i 0)
      else r)
    (vec, rowBits)

/-- Add a vector as the row of its lowest bit. -/
def minPolyPivot (m : ℕ) (e : Elimination) (vec rowBits : ℕ) : Elimination :=
  match (List.range m).find? fun i => vec.testBit i with
  | some i => ⟨e.matrix.set i vec, e.pivotCol.set i rowBits⟩
  | none => e

/-- The loop over the powers: the first dependency and its degree, if one turns up. -/
def minPolyLoop (m : ℕ) (powers : List ℕ) : List ℕ → Elimination → Option (ℕ × ℕ)
  | [], _ => none
  | d :: ds, e =>
      let r := minPolyReduce m e (powers.getD d 0) (2 ^ d)
      if r.1 = 0 then some (r.2, d)
      else minPolyLoop m powers ds (minPolyPivot m e r.1 r.2)

/-- The powers of `α ^ k` as patterns. -/
def minPolyPowers (m k : ℕ) (expTable : Array ℕ) (n : ℕ) : List ℕ :=
  (List.range (m + 1)).map fun i => expTable.getD (k * i % n) 0

/-- `compute_min_poly`: the polynomial and `*deg`. -/
def computeMinPoly (m k : ℕ) (expTable : Array ℕ) (n : ℕ) : ℕ × ℕ :=
  match minPolyLoop m (minPolyPowers m k expTable n) (List.range (m + 1))
      ⟨List.replicate 17 0, List.replicate 17 0⟩ with
  | some r => r
  | none => (2 ^ m ||| 1, m)

/-! ### The generator polynomial -/

/-- `temp[i + j] ^= 1` for the bits of `b_packed`. -/
def gf2PolyAddShifted (b degB : ℕ) (temp : List Bool) (i : ℕ) : List Bool :=
  (List.range (degB + 1)).foldl
    (fun temp j => if b.testBit j then temp.modify (i + j) not else temp) temp

/-- `gf2_poly_mul`: `result` and `*result_deg`. -/
def gf2PolyMul (result a : List Bool) (degA b degB : ℕ) : List Bool × ℕ :=
  let temp := (List.range (degA + 1)).foldl
    (fun temp i => if a.getD i false then gf2PolyAddShifted b degB temp i else temp)
    (List.replicate (bchMaxParity + 1) false)
  (temp.take (degA + degB + 1) ++ result.drop (degA + degB + 1), degA + degB)

/-- The marking loop; `none` stands for a loop that has not ended after `fuel` passes. -/
def markConjugates (n : ℕ) : ℕ → ℕ → Array Bool → Option (Array Bool)
  | 0, _, _ => none
  | fuel + 1, conj, visited =>
      if visited.getD conj false then some visited
      else markConjugates n fuel (conj * 2 % n) (visited.setIfInBounds conj true)

/-- The variables of the loop over the roots. -/
structure GenPoly where
  visited : Array Bool
  genPoly : List Bool
  genDeg : ℕ

/-- One root: skip it, or mark its conjugates and multiply its minimal polynomial in. -/
def genPolyStep (m n : ℕ) (expTable : Array ℕ) (s : GenPoly) (k : ℕ) : Option GenPoly :=
  if s.visited.getD (k % n) false then some s
  else
    let p := computeMinPoly m k expTable n
    match markConjugates n (n + 1) (k % n) s.visited with
    | none => none
    | some visited =>
        let r := gf2PolyMul s.genPoly s.genPoly s.genDeg p.1 p.2
        some ⟨visited, r.1, r.2⟩

/-- The exponential table of the encoder. -/
def bchExpTable (m primPoly n : ℕ) : Array ℕ :=
  expExtend n ((List.range n).foldl
    (fun s i => (s.1.setIfInBounds i s.2, mulX m primPoly s.2)) (Array.replicate (2 * n) 0, 1)).1

/-- `struct dvbs2x_bch_encoder`. -/
structure BchEncoder where
  t : ℕ
  n : ℕ
  k : ℕ
  parityLen : ℕ
  gfM : ℕ
  genPoly : List Bool

/-- `dvbs2x_bch_encoder_init`: its return value and the context. -/
def bchEncoderInit (modcod : Modcod) : Option (ℤ × BchEncoder) :=
  let m := gfOrder modcod.frameType
  let n := 2 ^ m - 1
  let expTable := bchExpTable m (gfPrimPolys m) n
  match ((List.range (2 * modcod.bchT)).map (· + 1)).foldlM (genPolyStep m n expTable)
      ⟨Array.replicate 65536 false, true :: List.replicate bchMaxParity false, 0⟩ with
  | none => none
  | some s =>
      let enc : BchEncoder :=
        { t := modcod.bchT
          n := modcod.nBch
          k := modcod.kBch
          parityLen := modcod.nBch - modcod.kBch
          gfM := m
          genPoly := s.genPoly }
      some (if s.genDeg ≠ enc.parityLen then -1 else 0, enc)

/-! ### Encoding -/

/-- One message bit through the shift register. -/
def lfsrStep (enc : BchEncoder) (lfsr : List Bool) (x : Bool) : List Bool :=
  let fb := x ^^ lfsr.getD (enc.parityLen - 1) false
  (List.range enc.parityLen).map fun j =>
    if j = 0 then enc.genPoly.getD 0 false && fb
    else if enc.genPoly.getD j false then lfsr.getD (j - 1) false ^^ fb
    else lfsr.getD (j - 1) false

/-- The register after the whole message. -/
def bchLfsr (enc : BchEncoder) (input : List Bool) : List Bool :=
  (List.range enc.k).foldl (fun lfsr i => lfsrStep enc lfsr (input.getD i false))
    (List.replicate enc.parityLen false)

/-- `dvbs2x_bch_encode`: the codeword written to `output`. -/
def bchEncode (enc : BchEncoder) (input : List Bool) : List Bool :=
  let lfsr := bchLfsr enc input
  input.take enc.k ++
    (List.range enc.parityLen).map fun i => lfsr.getD (enc.parityLen - 1 - i) false

end OpenVlsnr
