import OpenVlsnr.Gf2Pattern

/-!
# The field tables of the BCH code (`bch_decode.c`, `bch_encode.c`)

`gf_init` walks through the powers of `α` with a shift register and records them in an
exponential and a logarithm table.  The tables are right for every register polynomial whose
root has order `2 ^ m - 1` (`gfInit_spec`), which the three polynomials of the source are
(`gfPrimPolys_cert`); `gf_mul` and `gf_inv` are then product and inverse of the elements.
-/

namespace OpenVlsnr

open Finset

/-! ### Tables -/

/-- `struct gf_tables`. -/
structure GfTables where
  m : ℕ
  n : ℕ
  primPoly : ℕ
  expTable : Array ℕ
  logTable : Array ℤ

/-- `gf_prim_polys`, which `bch_encode.c` repeats as `prim_polys`. -/
def gfPrimPolys (m : ℕ) : ℕ :=
  if m = 14 then 0x402B else if m = 15 then 0x802D else if m = 16 then 0x1002D else 0

/-- The variables of the loop in `gf_init`. -/
structure GfInit where
  expTable : Array ℕ
  logTable : Array ℤ
  reg : ℕ

/-- One pass: record the register and step it. -/
def gfInitStep (m primPoly : ℕ) (s : GfInit) (i : ℕ) : GfInit where
  expTable := s.expTable.setIfInBounds i s.reg
  logTable := s.logTable.setIfInBounds s.reg i
  reg := mulX m primPoly s.reg

/-- The loop. -/
def gfInitLoop (m primPoly n : ℕ) : GfInit :=
  (List.range n).foldl (gfInitStep m primPoly)
    ⟨Array.replicate (2 * 2 ^ 16) 0, Array.replicate (2 ^ 16) 0, 1⟩

/-- The second half of the exponential table repeats the first. -/
def expExtend (n : ℕ) (expTable : Array ℕ) : Array ℕ :=
  (List.range n).foldl (fun e i => e.setIfInBounds (n + i) (e.getD i 0)) expTable

/-- `gf_init`. -/
def gfInit (m : ℕ) : GfTables :=
  let n := 2 ^ m - 1
  let s := gfInitLoop m (gfPrimPolys m) n
  { m := m
    n := n
    primPoly := gfPrimPolys m
    expTable := expExtend n s.expTable
    logTable := s.logTable.setIfInBounds 0 (-1) }

/-- `gf_mul`. -/
def gfMul (gf : GfTables) (a b : ℕ) : ℕ :=
  if a = 0 ∨ b = 0 then 0
  else gf.expTable.getD (gf.logTable.getD a 0 + gf.logTable.getD b 0).toNat 0

/-- `gf_inv`. -/
def gfInv (gf : GfTables) (a : ℕ) : ℕ :=
  if a = 0 then 0 else gf.expTable.getD (gf.n - gf.logTable.getD a 0).toNat 0

/-! ### The shift register -/

theorem getD_setIfInBounds {β : Type*} (a : Array β) (i j : ℕ) (v d : β) (h : i < a.size) :
    (a.setIfInBounds i v).getD j d = if j = i then v else a.getD j d := by
  simp only [Array.getD_eq_getD_getElem?, Array.getElem?_setIfInBounds]
  by_cases hij : i = j
  · subst hij
    simp [h]
  · rw [if_neg hij, if_neg (Ne.symm hij)]

/-- The loop after `k` passes. -/
structure GfInitAt (m primPoly k : ℕ) (s : GfInit) : Prop where
  exp_size : s.expTable.size = 2 * 2 ^ 16
  log_size : s.logTable.size = 2 ^ 16
  reg_eq : s.reg = expPattern m primPoly k
  exp_eq : ∀ i < k, s.expTable.getD i 0 = expPattern m primPoly i
  log_eq : ∀ i < k, s.logTable.getD (expPattern m primPoly i) 0 = i

/-- What the tables of a field with generator `α` hold. -/
structure GfSpec {F : Type*} [Field F] (gf : GfTables) (α : F) : Prop where
  defining : DefiningPoly gf.m gf.primPoly
  root : evalBits α gf.primPoly = 0
  order : orderOf α = 2 ^ gf.m - 1
  n_eq : gf.n = 2 ^ gf.m - 1
  exp_low : ∀ i < gf.n, gf.expTable.getD i 0 = expPattern gf.m gf.primPoly i
  exp_high : ∀ i < gf.n, gf.expTable.getD (gf.n + i) 0 = expPattern gf.m gf.primPoly i
  log_eq : ∀ i < gf.n, gf.logTable.getD (expPattern gf.m gf.primPoly i) 0 = i

theorem expPattern_succ (m poly k : ℕ) :
    expPattern m poly (k + 1) = mulX m poly (expPattern m poly k) :=
  Function.iterate_succ_apply' _ _ _

section
variable {F : Type*} [Field F] [CharP F 2] {α : F} {m primPoly : ℕ}
  (hp : DefiningPoly m primPoly) (hm : m ≤ 16) (hroot : evalBits α primPoly = 0)
  (hord : orderOf α = 2 ^ m - 1)
include hp hm hroot hord

theorem gfInitStep_spec {k : ℕ} (hk : k < 2 ^ m - 1) {s : GfInit}
    (h : GfInitAt m primPoly k s) : GfInitAt m primPoly (k + 1) (gfInitStep m primPoly s k) := by
  have hle : 2 ^ m ≤ 2 ^ 16 := Nat.pow_le_pow_right (by decide) hm
  have hreg := expPattern_lt hp k
  unfold gfInitStep
  rw [h.reg_eq]
  refine ⟨?_, ?_, (expPattern_succ m primPoly k).symm, ?_, ?_⟩
  · rw [Array.size_setIfInBounds, h.exp_size]
  · rw [Array.size_setIfInBounds, h.log_size]
  · intro i hi
    rw [getD_setIfInBounds _ _ _ _ _ (by rw [h.exp_size]; omega)]
    rcases Nat.lt_succ_iff_lt_or_eq.mp hi with hlt | rfl
    · rw [if_neg (by omega), h.exp_eq i hlt]
    · rw [if_pos rfl]
  · intro i hi
    rw [getD_setIfInBounds _ _ _ _ _ (by rw [h.log_size]; omega)]
    rcases Nat.lt_succ_iff_lt_or_eq.mp hi with hlt | rfl
    · rw [if_neg, h.log_eq i hlt]
      intro heq
      have := expPattern_injOn hroot hord (by omega) hk heq
      omega
    · rw [if_pos rfl]

/-- **The register loop**, by induction on the passes. -/
theorem gfInitLoop_spec (k : ℕ) (hk : k ≤ 2 ^ m - 1) :
    GfInitAt m primPoly k (gfInitLoop m primPoly k) := by
  unfold gfInitLoop
  induction k with
  | zero =>
    refine ⟨Array.size_replicate, Array.size_replicate, rfl, ?_, ?_⟩
    · intro i hi
      omega
    · intro i hi
      omega
  | succ k ih =>
    rw [List.range_succ, List.foldl_append, List.foldl_cons, List.foldl_nil]
    exact gfInitStep_spec hp hm hroot hord (by omega) (ih (by omega))

end

/-- The copying loop: entries below `n` stay, entry `n + i` becomes entry `i`. -/
theorem expExtend_getD (n k : ℕ) (hk : k ≤ n) (e : Array ℕ) (hsize : 2 * n ≤ e.size) :
    ∃ e', (List.range k).foldl (fun e i => e.setIfInBounds (n + i) (e.getD i 0)) e = e' ∧
      e'.size = e.size ∧
      (∀ i < n, e'.getD i 0 = e.getD i 0) ∧ ∀ i < k, e'.getD (n + i) 0 = e.getD i 0 := by
  induction k with
  | zero => exact ⟨e, rfl, rfl, fun _ _ => rfl, fun i hi => absurd hi (Nat.not_lt_zero i)⟩
  | succ k ih =>
    obtain ⟨e', hrun, hs, hlow, hhigh⟩ := ih (by omega)
    rw [List.range_succ, List.foldl_append, List.foldl_cons, List.foldl_nil, hrun]
    refine ⟨_, rfl, by rw [Array.size_setIfInBounds, hs], ?_, ?_⟩
    · intro i hi
      rw [getD_setIfInBounds _ _ _ _ _ (by rw [hs]; omega), if_neg (by omega), hlow i hi]
    · intro i hi
      rw [getD_setIfInBounds _ _ _ _ _ (by rw [hs]; omega)]
      rcases Nat.lt_succ_iff_lt_or_eq.mp hi with hlt | rfl
      · rw [if_neg (by omega), hhigh i hlt]
      · rw [if_pos rfl, hlow i (by omega)]

/-- **`gf_init` builds the tables of the field.** -/
theorem gfInit_spec {F : Type*} [Field F] [CharP F 2] {α : F} {m : ℕ}
    (hp : DefiningPoly m (gfPrimPolys m)) (hm : m ≤ 16) (hroot : evalBits α (gfPrimPolys m) = 0)
    (hord : orderOf α = 2 ^ m - 1) : GfSpec (gfInit m) α := by
  have hle : 2 ^ m ≤ 2 ^ 16 := Nat.pow_le_pow_right (by decide) hm
  obtain ⟨s, hs⟩ : ∃ s, gfInitLoop m (gfPrimPolys m) (2 ^ m - 1) = s := ⟨_, rfl⟩
  have hloop := gfInitLoop_spec hp hm hroot hord (2 ^ m - 1) le_rfl
  rw [hs] at hloop
  obtain ⟨e, he, -, hlow, hhigh⟩ := expExtend_getD (2 ^ m - 1) (2 ^ m - 1) le_rfl s.expTable
    (by rw [hloop.exp_size]; omega)
  have hgf : gfInit m = ⟨m, 2 ^ m - 1, gfPrimPolys m, e, s.logTable.setIfInBounds 0 (-1)⟩ := by
    unfold gfInit expExtend
    dsimp only
    rw [hs, he]
  rw [hgf]
  refine ⟨hp, hroot, hord, rfl, ?_, ?_, ?_⟩
  · intro i hi
    exact (hlow i hi).trans (hloop.exp_eq i hi)
  · intro i hi
    exact (hhigh i hi).trans (hloop.exp_eq i hi)
  · intro i hi
    have hpos := expPattern_pos hp hroot hord i
    dsimp only
    rw [getD_setIfInBounds _ _ _ _ _ (by rw [hloop.log_size]; exact Nat.two_pow_pos 16),
      if_neg (by omega), hloop.log_eq i hi]

/-! ### Arithmetic through the tables -/

section
variable {F : Type*} [Field F] [CharP F 2] {α : F} {gf : GfTables} (h : GfSpec gf α)
include h

omit [CharP F 2] in
theorem GfSpec.n_pos : 0 < gf.n := by
  have hlt : 2 ^ 1 < 2 ^ gf.m := Nat.pow_lt_pow_right (by decide) h.defining.pos
  rw [h.n_eq]
  omega

/-- A non-zero pattern has a logarithm. -/
theorem GfSpec.exists_log {a : ℕ} (ha : a ≠ 0) (hlt : a < 2 ^ gf.m) :
    ∃ i < gf.n, gf.logTable.getD a 0 = i ∧ a = expPattern gf.m gf.primPoly i := by
  obtain ⟨i, hi, rfl⟩ := exists_expPattern h.defining h.root h.order (Nat.pos_of_ne_zero ha) hlt
  rw [← h.n_eq] at hi
  exact ⟨i, hi, h.log_eq i hi, rfl⟩

/-- The table read anywhere in its two halves. -/
theorem GfSpec.exp_spec {i : ℕ} (hi : i < 2 * gf.n) :
    gf.expTable.getD i 0 < 2 ^ gf.m ∧ evalBits α (gf.expTable.getD i 0) = α ^ i := by
  rcases Nat.lt_or_ge i gf.n with hlt | hge
  · rw [h.exp_low i hlt]
    exact ⟨expPattern_lt h.defining i, evalBits_expPattern h.root i⟩
  · obtain ⟨k, rfl⟩ := Nat.exists_eq_add_of_le hge
    rw [h.exp_high k (by omega)]
    refine ⟨expPattern_lt h.defining k, ?_⟩
    rw [evalBits_expPattern h.root, pow_add, h.n_eq, ← h.order, pow_orderOf_eq_one, one_mul]

/-- The table read at an exponent reduced modulo the order. -/
theorem GfSpec.exp_mod_spec (i : ℕ) :
    gf.expTable.getD (i % gf.n) 0 < 2 ^ gf.m ∧
      evalBits α (gf.expTable.getD (i % gf.n) 0) = α ^ i := by
  have hlt := Nat.mod_lt i h.n_pos
  obtain ⟨h₁, h₂⟩ := h.exp_spec (i := i % gf.n) (by omega)
  refine ⟨h₁, h₂.trans ?_⟩
  rw [h.n_eq, ← h.order, pow_mod_orderOf]

/-- **`gf_mul` multiplies.** -/
theorem GfSpec.gfMul_spec {a b : ℕ} (ha : a < 2 ^ gf.m) (hb : b < 2 ^ gf.m) :
    gfMul gf a b < 2 ^ gf.m ∧ evalBits α (gfMul gf a b) = evalBits α a * evalBits α b := by
  unfold gfMul
  by_cases hz : a = 0 ∨ b = 0
  · rw [if_pos hz]
    refine ⟨Nat.two_pow_pos _, ?_⟩
    rcases hz with rfl | rfl
    · rw [evalBits_zero, zero_mul]
    · rw [evalBits_zero, mul_zero]
  · rw [if_neg hz]
    obtain ⟨ha0, hb0⟩ := not_or.mp hz
    obtain ⟨i, hi, hlog, rfl⟩ := h.exists_log ha0 ha
    obtain ⟨j, hj, hlog', rfl⟩ := h.exists_log hb0 hb
    rw [hlog, hlog', ← Int.natCast_add, Int.toNat_natCast]
    obtain ⟨h₁, h₂⟩ := h.exp_spec (i := i + j) (by omega)
    refine ⟨h₁, ?_⟩
    rw [h₂, evalBits_expPattern h.root, evalBits_expPattern h.root, pow_add]

/-- **`gf_inv` inverts.** -/
theorem GfSpec.gfInv_spec {a : ℕ} (ha : a < 2 ^ gf.m) :
    gfInv gf a < 2 ^ gf.m ∧ evalBits α (gfInv gf a) = (evalBits α a)⁻¹ := by
  unfold gfInv
  by_cases hz : a = 0
  · rw [if_pos hz, hz, evalBits_zero, inv_zero]
    exact ⟨Nat.two_pow_pos _, rfl⟩
  · rw [if_neg hz]
    obtain ⟨i, hi, hlog, rfl⟩ := h.exists_log hz ha
    rw [hlog, show ((gf.n : ℤ) - (i : ℤ)).toNat = gf.n - i by omega]
    obtain ⟨h₁, h₂⟩ := h.exp_spec (i := gf.n - i) (by have := h.n_pos; omega)
    refine ⟨h₁, ?_⟩
    rw [h₂, evalBits_expPattern h.root]
    refine eq_inv_of_mul_eq_one_left ?_
    rw [← pow_add, Nat.sub_add_cancel hi.le, h.n_eq, ← h.order, pow_orderOf_eq_one]

end

/-! ### The three fields -/

/-- A prime that divides a product of three primes is one of them. -/
theorem prime_dvd_three {p a b c : ℕ} (hp : p.Prime) (ha : a.Prime) (hb : b.Prime)
    (hc : c.Prime) (h : p ∣ a * b * c) : p = a ∨ p = b ∨ p = c := by
  rcases hp.dvd_mul.mp h with h | h
  · rcases hp.dvd_mul.mp h with h | h
    · exact Or.inl ((Nat.prime_dvd_prime_iff_eq hp ha).mp h)
    · exact Or.inr (Or.inl ((Nat.prime_dvd_prime_iff_eq hp hb).mp h))
  · exact Or.inr (Or.inr ((Nat.prime_dvd_prime_iff_eq hp hc).mp h))

theorem gfPrimPolys_cert_14 : PrimitiveCert 14 (gfPrimPolys 14) := by
  refine ⟨⟨by decide, by decide, by decide⟩, by decide +kernel, fun p hp hdvd => ?_⟩
  rcases prime_dvd_three hp (by norm_num : Nat.Prime 3) (by norm_num : Nat.Prime 43)
    (by norm_num : Nat.Prime 127) hdvd with rfl | rfl | rfl
  · decide +kernel
  · decide +kernel
  · decide +kernel

theorem gfPrimPolys_cert_15 : PrimitiveCert 15 (gfPrimPolys 15) := by
  refine ⟨⟨by decide, by decide, by decide⟩, by decide +kernel, fun p hp hdvd => ?_⟩
  rcases prime_dvd_three hp (by norm_num : Nat.Prime 7) (by norm_num : Nat.Prime 31)
    (by norm_num : Nat.Prime 151) hdvd with rfl | rfl | rfl
  · decide +kernel
  · decide +kernel
  · decide +kernel

theorem gfPrimPolys_cert_16 : PrimitiveCert 16 (gfPrimPolys 16) := by
  refine ⟨⟨by decide, by decide, by decide⟩, by decide +kernel, fun p hp hdvd => ?_⟩
  have h255 : 255 = 3 * 5 * 17 := rfl
  rcases hp.dvd_mul.mp (show p ∣ 255 * 257 from hdvd) with h | h
  · rcases prime_dvd_three hp (by norm_num : Nat.Prime 3) (by norm_num : Nat.Prime 5)
      (by norm_num : Nat.Prime 17) (h255 ▸ h) with rfl | rfl | rfl
    · decide +kernel
    · decide +kernel
    · decide +kernel
  · rw [(Nat.prime_dvd_prime_iff_eq hp (by norm_num : Nat.Prime 257)).mp h]
    decide +kernel

/-- **The three register polynomials are primitive.** -/
theorem gfPrimPolys_cert {m : ℕ} (hm : m = 14 ∨ m = 15 ∨ m = 16) :
    PrimitiveCert m (gfPrimPolys m) := by
  rcases hm with rfl | rfl | rfl
  · exact gfPrimPolys_cert_14
  · exact gfPrimPolys_cert_15
  · exact gfPrimPolys_cert_16

end OpenVlsnr
