import Mathlib.Algebra.Order.Field.Basic
import Mathlib.Algebra.Order.Floor.Semiring
import Mathlib.Algebra.Order.Group.Unbundled.Abs
import OpenVlsnr.Extrinsic
import OpenVlsnr.LdpcEncode

/-!
# The LDPC decoder (`ldpc_decode.c`)

`dvbs2x_ldpc_decode` runs layered iterations, one row after the other, until the hard decisions
satisfy every check.  The message arithmetic is a parameter: any type with addition,
subtraction and an order, and any box-plus operation.  The operator of the code is `boxplus` with
its interpolated table (`lutLog1pexp`).
-/

namespace OpenVlsnr

open BucketFill Extrinsic

abbrev convCheckPeriod : ℕ := 5
abbrev earlyCheckIters : ℕ := 10

/-! ### The box-plus operator -/

section
variable {R : Type*} [Field R] [LinearOrder R]

/-- `LLR_CLAMP`. -/
abbrev llrClamp : R := 40

/-- The clamp that `boxplus` starts with. -/
def clampLlr (a : R) : R := if a > llrClamp then llrClamp else if a < -llrClamp then -llrClamp else a

/-- `BOXPLUS_LUT_SIZE`. -/
abbrev boxplusLutSize : ℕ := 512

/-- The static table and its flag: `boxplus_lut` and `boxplus_lut_init`. -/
structure BoxplusLut (R : Type*) where
  lut : List R
  init : Bool

/-- Static memory starts as zeros. -/
def BoxplusLut.start : BoxplusLut R :=
  { lut := List.replicate (boxplusLutSize + 1) 0, init := false }

/-- `init_boxplus_lut`. -/
def initBoxplusLut (log1p exp : R → R) : BoxplusLut R :=
  let step : R := llrClamp / (boxplusLutSize : ℕ)
  { lut := (List.range (boxplusLutSize + 1)).map fun i : ℕ => log1p (exp (-(i : R) * step))
    init := true }

/-- `dvbs2x_ldpc_lut_init`. -/
def ldpcLutInit (log1p exp : R → R) (t : BoxplusLut R) : BoxplusLut R :=
  if !t.init then initBoxplusLut log1p exp else t

/-- Whether the library was initialised, and how often, is up to the caller. -/
inductive LutReach (log1p exp : R → R) : BoxplusLut R → Prop
  | start : LutReach log1p exp .start
  | init {t : BoxplusLut R} : LutReach log1p exp t → LutReach log1p exp (ldpcLutInit log1p exp t)

omit [LinearOrder R] in
/-- The static memory holds zeros or the table. -/
theorem LutReach.cases {log1p exp : R → R} {t : BoxplusLut R} (h : LutReach log1p exp t) :
    t = .start ∨ t = initBoxplusLut log1p exp := by
  induction h with
  | start => exact .inl rfl
  | init _ ih =>
    rcases ih with rfl | rfl
    · exact .inr rfl
    · exact .inr rfl

/-- `lut_log1pexp`. -/
def lutLog1pexp [FloorSemiring R] (t : BoxplusLut R) (x : R) : R :=
  if x ≥ llrClamp then 0
  else
    let idxF := x * ((boxplusLutSize : ℕ) / llrClamp)
    let idx := ⌊idxF⌋₊
    let f := idxF - idx
    t.lut.getD idx 0 + f * (t.lut.getD (idx + 1) 0 - t.lut.getD idx 0)

/-- `boxplus`, with `lut` for `lut_log1pexp`. -/
def boxplus (lut : R → R) (a b : R) : R :=
  let a := clampLlr a
  let b := clampLlr b
  let sgn : R := (if a < 0 then -1 else 1) * (if b < 0 then -1 else 1)
  let mn := if |a| < |b| then |a| else |b|
  let corr := lut |a + b| - lut |a - b|
  sgn * mn + corr

end

/-! ### The decoder -/

/-- `struct dvbs2x_ldpc_decoder`: what `dvbs2x_ldpc_decode` reads of it. -/
structure LdpcDecoder where
  code : LdpcCode
  maxIter : ℕ
  csr : LdpcCsr
  deriving DecidableEq, Repr

/-- `dvbs2x_ldpc_decoder_init`. -/
def ldpcDecoderInit (mc : Modcod) (maxIter : ℕ) : Option LdpcDecoder :=
  (ldpcCodeInit mc).map fun code => { code := code, maxIter := maxIter, csr := buildCsr code }

/-- The working memory that lives across rows: `vn_llr` and `edge_msg`. -/
structure LdpcState (R : Type*) where
  vnLlr : List R
  edgeMsg : List R

section
variable {R : Type*} [Zero R] [Add R] [Sub R] [LT R] [DecidableLT R]

/-- The hard decision on one belief. -/
def LdpcState.neg (s : LdpcState R) (vn : ℕ) : Bool := decide (s.vnLlr.getD vn 0 < 0)

/-- `v2c[d]` of the row that starts at `rowStart`. -/
def ldpcGather (csr : LdpcCsr) (s : LdpcState R) (rowStart d : ℕ) : R :=
  s.vnLlr.getD (csr.colIdx.getD (rowStart + d) 0) 0 - s.edgeMsg.getD (rowStart + d) 0

/-- One edge: the belief moves by the change of the message, and the message is stored. -/
def ldpcScatter (csr : LdpcCsr) (newMsg : ℕ → R) (rowStart : ℕ) (s : LdpcState R) (d : ℕ) :
    LdpcState R :=
  { vnLlr := s.vnLlr.modify (csr.colIdx.getD (rowStart + d) 0)
      (· + (newMsg d - s.edgeMsg.getD (rowStart + d) 0))
    edgeMsg := s.edgeMsg.set (rowStart + d) (newMsg d) }

/-- One check node. -/
def ldpcRow (boxplus : R → R → R) (csr : LdpcCsr) (s : LdpcState R) (i : ℕ) : LdpcState R :=
  let rowStart := csr.rowPtr.getD i 0
  let rowEnd := csr.rowPtr.getD (i + 1) 0
  let degree := rowEnd - rowStart
  if degree = 0 then s
  else
    let v2c := ldpcGather csr s rowStart
    (List.range degree).foldl
      (ldpcScatter csr (extrinsic boxplus 0 v2c degree) rowStart) s

/-- The rows of one iteration. -/
def ldpcPass (boxplus : R → R → R) (csr : LdpcCsr) (m : ℕ) (s : LdpcState R) : LdpcState R :=
  (List.range m).foldl (ldpcRow boxplus csr) s

/-- The convergence check. -/
def ldpcConverged (csr : LdpcCsr) (m : ℕ) (s : LdpcState R) : Bool :=
  (List.range m).all fun i => !csrRowParity csr s.neg i

/-- How the iterations end. -/
inductive LdpcStop where
  | converged
  | cancelled
  | exhausted
  deriving DecidableEq, Repr

/-- The iterations from `iter` on, `left` of them before `max_iter`.  The convergence check is
skipped off its schedule, never in the last iteration. -/
def ldpcLoop (boxplus : R → R → R) (dec : LdpcDecoder) (cancel : ℕ → Bool) :
    ℕ → ℕ → LdpcState R → LdpcStop × ℕ × LdpcState R
  | 0, iter, s => (.exhausted, iter, s)
  | left + 1, iter, s =>
      if cancel iter then (.cancelled, iter, s)
      else
        let s := ldpcPass boxplus dec.csr dec.code.m s
        if iter ≥ earlyCheckIters ∧ (iter + 1) % convCheckPeriod ≠ 0 ∧ iter + 1 < dec.maxIter then
          ldpcLoop boxplus dec cancel left (iter + 1) s
        else if ldpcConverged dec.csr dec.code.m s then (.converged, iter + 1, s)
        else ldpcLoop boxplus dec cancel left (iter + 1) s

/-- What a call leaves behind: its return value, `output`, `*iter_used` and the beliefs. -/
structure LdpcOutcome (R : Type*) where
  ret : ℤ
  output : List Bool
  iterUsed : ℕ
  vnLlr : List R

/-- `dvbs2x_ldpc_decode`; `cancel iter` is what the cancel flag holds when iteration `iter`
starts, and `output` the contents of the buffer before the call. -/
def ldpcDecode (boxplus : R → R → R) (dec : LdpcDecoder) (cancel : ℕ → Bool) (llr : List R)
    (output : List Bool) : LdpcOutcome R :=
  let s : LdpcState R :=
    { vnLlr := (List.range dec.code.n).map fun i => llr.getD i 0
      edgeMsg := List.replicate dec.csr.numEdges 0 }
  match ldpcLoop boxplus dec cancel dec.maxIter 0 s with
  | (.cancelled, iter, s) => { ret := -1, output := output, iterUsed := iter, vnLlr := s.vnLlr }
  | (.converged, iter, s) =>
      { ret := 0, output := (List.range dec.code.k).map s.neg, iterUsed := iter,
        vnLlr := s.vnLlr }
  | (.exhausted, _, s) =>
      { ret := -1, output := (List.range dec.code.k).map s.neg, iterUsed := dec.maxIter,
        vnLlr := s.vnLlr }

/-- When the first pass already satisfies every check, the call returns after it. -/
theorem ldpcDecode_of_first_pass {boxplus : R → R → R} {dec : LdpcDecoder} {cancel : ℕ → Bool}
    {llr : List R} {s : LdpcState R} (output : List Bool) (hiter : 1 ≤ dec.maxIter)
    (hcancel : cancel 0 = false)
    (hpass : ldpcPass boxplus dec.csr dec.code.m
      { vnLlr := (List.range dec.code.n).map fun i => llr.getD i 0
        edgeMsg := List.replicate dec.csr.numEdges 0 } = s)
    (hconv : ldpcConverged dec.csr dec.code.m s = true) :
    ldpcDecode boxplus dec cancel llr output
      = { ret := 0, output := (List.range dec.code.k).map s.neg, iterUsed := 1,
          vnLlr := s.vnLlr } := by
  obtain ⟨left, hleft⟩ : ∃ left, dec.maxIter = left + 1 := ⟨dec.maxIter - 1, by omega⟩
  rw [ldpcDecode, hleft, ldpcLoop, hcancel]
  simp only [Bool.false_eq_true, if_false, hpass, hconv, if_true]
  rw [if_neg fun h => absurd h.1 (by decide)]

end

end OpenVlsnr
