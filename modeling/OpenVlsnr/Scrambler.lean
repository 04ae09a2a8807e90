import OpenVlsnr.Types

/-!
# The physical-layer scrambler (`scrambler.c`)

Two shift registers give a value `Rn` per symbol.  QPSK symbols and pilots are turned by `Rn`
quarter turns, other payload is negated when `Rn` is odd.  Descrambling from the same register
state gives the symbols back, over any commutative ring and whatever the registers produce
(`descrambleField_scrambleField`).
-/

namespace OpenVlsnr

/-! ### The registers -/

/-- `DVBS2X_GOLD_CODE_MAX`, the limit at both ends. -/
abbrev goldCodeMax : ℕ := 262141

/-- `struct dvbs2x_scrambler`. -/
structure Scrambler where
  xReg : BitVec 32
  yReg : BitVec 32
  goldIdx : ℕ
  deriving DecidableEq, Repr

/-- Parity of `a & b`. -/
def parityChk (a b : BitVec 32) : ℕ :=
  let a := a &&& b
  let a := a ^^^ (a >>> 16)
  let a := a ^^^ (a >>> 8)
  let a := a ^^^ (a >>> 4)
  let a := a ^^^ (a >>> 2)
  let a := a ^^^ (a >>> 1)
  (a &&& 1#32).toNat

/-- `reg >>= 1; if (bit) reg |= SCRAMBLER_FEEDBACK`. -/
def scramblerShift (reg : BitVec 32) (bit : ℕ) : BitVec 32 :=
  if bit ≠ 0 then (reg >>> 1) ||| 0x20000#32 else reg >>> 1

/-- `dvbs2x_scrambler_next_rn`. -/
def scramblerNextRn (scr : Scrambler) : ℕ × Scrambler :=
  let xa := parityChk scr.xReg 0x8050#32
  let xb := parityChk scr.xReg 0x0081#32
  let xc := (scr.xReg &&& 1#32).toNat
  let ya := parityChk scr.yReg 0x04A1#32
  let yb := parityChk scr.yReg 0xFF60#32
  let yc := (scr.yReg &&& 1#32).toNat
  (((xa ^^^ yb) <<< 1) + (xc ^^^ yc),
    { scr with xReg := scramblerShift scr.xReg xb, yReg := scramblerShift scr.yReg ya })

/-- `dvbs2x_scrambler_init`. -/
def scramblerInit (goldIdx : ℕ) : Scrambler :=
  { xReg := (List.range goldIdx).foldl
      (fun x _ => (((x ^^^ (x >>> 7)) &&& 1#32) <<< 17) ||| (x >>> 1)) 1#32
    yReg := 0x3ffff#32
    goldIdx := goldIdx }

/-- `dvbs2x_scrambler_reset`. -/
def scramblerReset (scr : Scrambler) : Scrambler := scramblerInit scr.goldIdx

/-- `dvbs2x_scrambler_seek`. -/
def scramblerSeek (scr : Scrambler) (n : ℕ) : Scrambler :=
  (List.range n).foldl (fun scr _ => (scramblerNextRn scr).2) scr

/-! ### Symbols -/

/-- `struct dvbs2x_complex`. -/
@[ext]
structure Cplx (R : Type*) where
  i : R
  q : R

instance {R : Type*} [Zero R] : Zero (Cplx R) := ⟨⟨0, 0⟩⟩

section
variable {R : Type*} [CommRing R]

/-- `rot_fwd`. -/
def rotFwd (s : Cplx R) (rn : ℕ) : Cplx R :=
  match rn with
  | 1 => ⟨-s.q, s.i⟩
  | 2 => ⟨-s.i, -s.q⟩
  | 3 => ⟨s.q, -s.i⟩
  | _ => s

/-- `rot_inv`. -/
def rotInv (s : Cplx R) (rn : ℕ) : Cplx R :=
  match rn with
  | 1 => ⟨s.q, -s.i⟩
  | 2 => ⟨-s.i, -s.q⟩
  | 3 => ⟨-s.q, s.i⟩
  | _ => s

theorem rotInv_rotFwd (s : Cplx R) (rn : ℕ) : rotInv (rotFwd s rn) rn = s := by
  unfold rotInv rotFwd
  split <;> simp

/-- One symbol of `dvbs2x_scramble_field`. -/
def scrambleSymbol (fourPhase : Bool) (rn : ℕ) (s : Cplx R) : Cplx R :=
  if fourPhase then rotFwd s rn
  else if rn % 2 = 1 then ⟨-s.i, -s.q⟩
  else s

/-- One symbol of `dvbs2x_descramble_field`. -/
def descrambleSymbol (fourPhase : Bool) (rn : ℕ) (s : Cplx R) : Cplx R :=
  if fourPhase then rotInv s rn
  else if rn % 2 = 1 then ⟨-s.i, -s.q⟩
  else s

theorem descrambleSymbol_scrambleSymbol (fourPhase : Bool) (rn : ℕ) (s : Cplx R) :
    descrambleSymbol fourPhase rn (scrambleSymbol fourPhase rn s) = s := by
  cases fourPhase
  · simp only [descrambleSymbol, scrambleSymbol, Bool.false_eq_true, if_false]
    by_cases hodd : rn % 2 = 1
    · simp [hodd]
    · simp [hodd]
  · exact rotInv_rotFwd s rn

/-! ### Fields -/

/-- The loop both directions share; `n` is the index of the next symbol. -/
def scrambleLoop (symbol : Bool → ℕ → Cplx R → Cplx R) (isPilot : List Bool) (isQpsk : Bool) :
    ℕ → Scrambler → List (Cplx R) → List (Cplx R) × Scrambler
  | _, scr, [] => ([], scr)
  | n, scr, s :: rest =>
      let r := scramblerNextRn scr
      let fourPhase := isQpsk || isPilot.getD n false
      let t := scrambleLoop symbol isPilot isQpsk (n + 1) r.2 rest
      (symbol fourPhase r.1 s :: t.1, t.2)

/-- `dvbs2x_scramble_field`. -/
def scrambleField (scr : Scrambler) (symbols : List (Cplx R)) (isPilot : List Bool)
    (isQpsk : Bool) : List (Cplx R) × Scrambler :=
  scrambleLoop scrambleSymbol isPilot isQpsk 0 scr symbols

/-- `dvbs2x_descramble_field`. -/
def descrambleField (scr : Scrambler) (symbols : List (Cplx R)) (isPilot : List Bool)
    (isQpsk : Bool) : List (Cplx R) × Scrambler :=
  scrambleLoop descrambleSymbol isPilot isQpsk 0 scr symbols

omit [CommRing R] in
theorem scrambleLoop_inverse {f g : Bool → ℕ → Cplx R → Cplx R}
    (hfg : ∀ fourPhase rn s, g fourPhase rn (f fourPhase rn s) = s) (isPilot : List Bool)
    (isQpsk : Bool) (n : ℕ) (scr : Scrambler) (symbols : List (Cplx R)) :
    scrambleLoop g isPilot isQpsk n scr (scrambleLoop f isPilot isQpsk n scr symbols).1
      = (symbols, (scrambleLoop f isPilot isQpsk n scr symbols).2) := by
  induction symbols generalizing n scr with
  | nil => rfl
  | cons s rest ih =>
    simp only [scrambleLoop]
    rw [ih, hfg]

omit [CommRing R] in
theorem scrambleLoop_length (f : Bool → ℕ → Cplx R → Cplx R) (isPilot : List Bool)
    (isQpsk : Bool) (n : ℕ) (scr : Scrambler) (symbols : List (Cplx R)) :
    (scrambleLoop f isPilot isQpsk n scr symbols).1.length = symbols.length := by
  induction symbols generalizing n scr with
  | nil => rfl
  | cons s rest ih => simp only [scrambleLoop, List.length_cons, ih]

theorem scrambleField_length (scr : Scrambler) (symbols : List (Cplx R)) (isPilot : List Bool)
    (isQpsk : Bool) :
    (scrambleField scr symbols isPilot isQpsk).1.length = symbols.length :=
  scrambleLoop_length scrambleSymbol isPilot isQpsk 0 scr symbols

/-- **Descrambling undoes scrambling**, and leaves the registers in the same state. -/
theorem descrambleField_scrambleField (scr : Scrambler) (symbols : List (Cplx R))
    (isPilot : List Bool) (isQpsk : Bool) :
    descrambleField scr (scrambleField scr symbols isPilot isQpsk).1 isPilot isQpsk
      = (symbols, (scrambleField scr symbols isPilot isQpsk).2) :=
  scrambleLoop_inverse descrambleSymbol_scrambleSymbol isPilot isQpsk 0 scr symbols

end

end OpenVlsnr
