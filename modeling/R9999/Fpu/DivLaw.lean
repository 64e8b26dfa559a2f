import R9999.Fpu.Divider
import Mathlib.Analysis.Real.Sqrt

/-!
# What the divider computes

A pass of the unit is a divide or a square root; `PassSpec` is what its result is, the exact
quotient or root rounded once.  A reciprocal square root is two passes, the second on the
result of the first (`DivSpec`).  `divider_correct` is stated of runs: the unit comes to its
result after a number of cycles and holds it until the write port has a slot.
-/

open Hw (RoundMode Rounds Tail Dividing Rooting)

namespace R9999.Fpu

/-! ## The normalization -/

/-- The place of the leading bit of a root, and of a quotient below one. -/
def topBit (fmt : Bool) : ℕ := if fmt then 54 else 25

namespace FpDivider

section Normalize

variable {K : Type*} [Field K] [LinearOrder K] [IsStrictOrderedRing K]
variable {d : FpDivider} {r : K} {e u : ℤ}

/-- A root, or a quotient below one. -/
theorem norm_low (hl : 2 ^ topBit d.fmt ≤ d.q) (hh : d.q < 2 ^ (topBit d.fmt + 1)) (h0 : 0 ≤ r)
    (h1 : r < 1) (hr : d.rem ≠ 0 ↔ r ≠ 0) (he : e = u + topBit d.fmt + bias d.fmt) :
    Norm d.fmt d.normSig e ((d.q + r) * 2 ^ u) ∧ d.divGe1 = false := by
  have hs : (d.rem != 0) = true ↔ r ≠ 0 := bne_iff_ne.trans hr
  cases hf : d.fmt with
  | true =>
    simp only [hf, topBit, if_true] at hl hh he
    have hq : d.wQ = d.q := by
      rw [wQ, hf, if_pos rfl, Nat.mod_eq_of_lt (by omega)]
    have hge : d.divGe1 = false := by
      rw [divGe1, hq, Nat.testBit_eq_decide_div_mod_eq, decide_eq_false_iff_not]
      omega
    have hsig : d.normSig = ⟨d.q / 2 ^ (0 + 2), d.q.testBit (0 + 1), d.q.testBit 0, d.rem != 0⟩ := by
      have hm : d.q / 2 ^ 2 % 2 ^ 53 = d.q / 2 ^ 2 := Nat.mod_eq_of_lt (by omega)
      simp only [normSig, hge, hq, hm, Bool.and_false, Bool.false_eq_true, if_false]
    rw [hsig]
    exact ⟨Norm.of_testBit h0 h1 (by simpa [Nat.mod_one] using hs) hl hh (by rw [he]; push_cast; ring), hge⟩
  | false =>
    simp only [hf, topBit, Bool.false_eq_true, if_false] at hl hh he
    have hq : d.wQ = d.q * 2 ^ 29 := by
      rw [wQ, hf]
      simp only [Bool.false_eq_true, if_false]
      rw [Nat.mod_eq_of_lt (by omega), Nat.mod_eq_of_lt (by omega), ite_self]
    have hge : d.divGe1 = false := by
      rw [divGe1, hq, Nat.testBit_eq_decide_div_mod_eq, decide_eq_false_iff_not]
      omega
    have hsig : d.normSig = ⟨d.q * 2 ^ (27 - 0), false, false, d.rem != 0⟩ := by
      have hm : d.q * 2 ^ 29 / 2 ^ 2 % 2 ^ 53 = d.q * 2 ^ 27 := by omega
      have hb1 : (d.q * 2 ^ 29).testBit 1 = false := by
        rw [Nat.testBit_eq_decide_div_mod_eq, decide_eq_false_iff_not]
        omega
      have hb0 : (d.q * 2 ^ 29).testBit 0 = false := by
        rw [Nat.testBit_eq_decide_div_mod_eq, decide_eq_false_iff_not]
        omega
      simp only [normSig, hge, hq, hm, hb1, hb0, Bool.and_false, Bool.false_eq_true, if_false]
    rw [hsig]
    exact ⟨Norm.of_short h0 h1 hs (by decide) hl hh (by rw [he]; push_cast; ring), hge⟩

/-- A quotient that is at least one. -/
theorem norm_high (hd : d.isSqrt = false) (hl : 2 ^ (topBit d.fmt + 1) ≤ d.q)
    (hh : d.q < 2 ^ (topBit d.fmt + 2)) (h0 : 0 ≤ r) (h1 : r < 1) (hr : d.rem ≠ 0 ↔ r ≠ 0)
    (he : e = u + topBit d.fmt + 1 + bias d.fmt) :
    Norm d.fmt d.normSig e ((d.q + r) * 2 ^ u) ∧ d.divGe1 = true := by
  have hs : (d.rem != 0) = true ↔ r ≠ 0 := bne_iff_ne.trans hr
  cases hf : d.fmt with
  | true =>
    simp only [hf, topBit, if_true] at hl hh he
    have hq : d.wQ = d.q := by
      rw [wQ, hf, if_pos rfl, Nat.mod_eq_of_lt (by omega)]
    have hge : d.divGe1 = true := by
      rw [divGe1, hq, Nat.testBit_eq_decide_div_mod_eq, decide_eq_true_eq]
      omega
    have hsig : d.normSig =
        ⟨d.q / 2 ^ (1 + 2), d.q.testBit (1 + 1), d.q.testBit 1, d.q.testBit 0 || d.rem != 0⟩ := by
      have hm : d.q / 2 ^ 3 % 2 ^ 53 = d.q / 2 ^ 3 := Nat.mod_eq_of_lt (by omega)
      simp only [normSig, hd, hge, hq, hm, Bool.not_false, Bool.and_true, if_true]
    have hsd : (d.q.testBit 0 || d.rem != 0) = true ↔ d.q % 2 ^ 1 ≠ 0 ∨ r ≠ 0 := by
      rw [Bool.or_eq_true, hs, Nat.testBit_eq_decide_div_mod_eq, decide_eq_true_eq]
      refine or_congr_left ?_
      omega
    rw [hsig]
    exact ⟨Norm.of_testBit h0 h1 hsd hl hh (by rw [he]; push_cast; ring), hge⟩
  | false =>
    simp only [hf, topBit, Bool.false_eq_true, if_false] at hl hh he
    have hq : d.wQ = d.q * 2 ^ 29 := by
      rw [wQ, hf, hd]
      simp only [Bool.false_eq_true, if_false]
      rw [Nat.mod_eq_of_lt (by omega)]
    have hge : d.divGe1 = true := by
      rw [divGe1, hq, Nat.testBit_eq_decide_div_mod_eq, decide_eq_true_eq]
      omega
    have hsig : d.normSig = ⟨d.q * 2 ^ (27 - 1), false, false, d.rem != 0⟩ := by
      have hm : d.q * 2 ^ 29 / 2 ^ 3 % 2 ^ 53 = d.q * 2 ^ 26 := by omega
      have hb2 : (d.q * 2 ^ 29).testBit 2 = false := by
        rw [Nat.testBit_eq_decide_div_mod_eq, decide_eq_false_iff_not]
        omega
      have hb1 : (d.q * 2 ^ 29).testBit 1 = false := by
        rw [Nat.testBit_eq_decide_div_mod_eq, decide_eq_false_iff_not]
        omega
      have hb0 : (d.q * 2 ^ 29).testBit 0 = false := by
        rw [Nat.testBit_eq_decide_div_mod_eq, decide_eq_false_iff_not]
        omega
      simp only [normSig, hd, hge, hq, hm, hb2, hb1, hb0, Bool.not_false, Bool.and_true,
        Bool.false_or, if_true]
    rw [hsig]
    exact ⟨Norm.of_short h0 h1 hs (by decide) hl hh (by rw [he]; push_cast; ring), hge⟩

end Normalize

end FpDivider

/-! ## The values -/

/-- The exact result of a pass. -/
noncomputable def exactPass (isSqrt fmt : Bool) (a b : BitVec 64) : ℝ :=
  if isSqrt then √(mag ℝ fmt a) else mag ℝ fmt a / mag ℝ fmt b

/-- The exponent of the unit of the recurrence: a divide runs for two steps more than
`topBit`, a square root for one. -/
def passExp (isSqrt fmt : Bool) (a b : BitVec 64) : ℤ :=
  if isSqrt then ((exp fmt a : ℤ) - bias fmt) / 2 else (exp fmt a : ℤ) - exp fmt b

theorem lastStep_eq (isSqrt fmt : Bool) :
    lastStep isSqrt fmt = if isSqrt then topBit fmt else topBit fmt + 1 := by
  cases isSqrt <;> cases fmt <;> rfl

section Values

variable {fmt : Bool} {a b : BitVec 64} {n q rem : ℕ}

/-- The quotient of the magnitudes. -/
theorem quotient_eq (h : q * sig fmt b + rem = sig fmt a * 2 ^ n) :
    mag ℝ fmt a / mag ℝ fmt b =
      ((q : ℝ) + rem / sig fmt b) * 2 ^ ((exp fmt a : ℤ) - exp fmt b - n) := by
  have hB : (sig fmt b : ℝ) ≠ 0 := by
    have := (sig_bounds fmt b).1
    exact Nat.cast_ne_zero.2 (by omega)
  have hA : (sig fmt a : ℝ) * 2 ^ n = q * sig fmt b + rem := by exact_mod_cast h.symm
  have hpow : (2 : ℝ) ^ ((exp fmt a : ℤ) - bias fmt - 52) =
      2 ^ n * 2 ^ ((exp fmt a : ℤ) - exp fmt b - n) * 2 ^ ((exp fmt b : ℤ) - bias fmt - 52) := by
    rw [← zpow_natCast, ← zpow_add₀ two_ne_zero, ← zpow_add₀ two_ne_zero]
    congr 1
    ring
  have hne : (2 : ℝ) ^ ((exp fmt b : ℤ) - bias fmt - 52) ≠ 0 := zpow_ne_zero _ two_ne_zero
  rw [mag, mag, div_eq_iff (mul_ne_zero hB hne), hpow]
  calc (sig fmt a : ℝ) * (2 ^ n * 2 ^ ((exp fmt a : ℤ) - exp fmt b - n) *
        2 ^ ((exp fmt b : ℤ) - bias fmt - 52))
      = sig fmt a * 2 ^ n * (2 ^ ((exp fmt a : ℤ) - exp fmt b - n) *
        2 ^ ((exp fmt b : ℤ) - bias fmt - 52)) := by ring
    _ = (q * sig fmt b + rem) * (2 ^ ((exp fmt a : ℤ) - exp fmt b - n) *
        2 ^ ((exp fmt b : ℤ) - bias fmt - 52)) := by rw [hA]
    _ = _ := by field_simp

/-- The bits of a quotient. -/
theorem quotient_bounds (h : q * sig fmt b + rem = sig fmt a * 2 ^ (n + 1))
    (hr : rem < sig fmt b) : 2 ^ n ≤ q ∧ q < 2 ^ (n + 2) := by
  obtain ⟨ha, ha'⟩ := sig_bounds fmt a
  obtain ⟨hb, hb'⟩ := sig_bounds fmt b
  have hpos := Nat.two_pow_pos n
  have hp : 2 ^ (n + 1) = 2 * 2 ^ n ∧ 2 ^ (n + 2) = 4 * 2 ^ n := ⟨by ring, by ring⟩
  rw [hp.1] at h
  rw [hp.2]
  constructor
  · by_contra hlt
    have hle : q + 1 ≤ 2 ^ n := by omega
    have hmul : (q + 1) * sig fmt b ≤ 2 ^ n * sig fmt b := Nat.mul_le_mul_right _ hle
    have hlow : 2 ^ n * 2 ^ 53 ≤ sig fmt a * (2 * 2 ^ n) := by
      calc 2 ^ n * 2 ^ 53 = 2 ^ 52 * (2 * 2 ^ n) := by ring
        _ ≤ sig fmt a * (2 * 2 ^ n) := Nat.mul_le_mul_right _ ha
    have hhigh : 2 ^ n * sig fmt b < 2 ^ n * 2 ^ 53 := (Nat.mul_lt_mul_left hpos).2 hb'
    rw [Nat.add_mul, Nat.one_mul] at hmul
    omega
  · by_contra hge
    have hmul : 4 * 2 ^ n * sig fmt b ≤ q * sig fmt b := Nat.mul_le_mul_right _ (not_lt.1 hge)
    have hlow : 4 * 2 ^ n * 2 ^ 52 ≤ 4 * 2 ^ n * sig fmt b := Nat.mul_le_mul_left _ hb
    have hhigh : sig fmt a * (2 * 2 ^ n) < 2 ^ 53 * (2 * 2 ^ n) :=
      (Nat.mul_lt_mul_right (by omega)).2 ha'
    have hsame : 4 * 2 ^ n * 2 ^ 52 = 2 ^ 53 * (2 * 2 ^ n) := by ring
    omega

/-- The root of a number from its integer part and what is over its square. -/
theorem root_frac {P : ℕ} (h : q * q + rem = P) (hle : rem ≤ 2 * q) :
    ∃ r : ℝ, 0 ≤ r ∧ r < 1 ∧ (rem ≠ 0 ↔ r ≠ 0) ∧ √(P : ℝ) = q + r := by
  have hP : (P : ℝ) = q ^ 2 + rem := by
    rw [← h]
    push_cast
    ring
  have hlt : (P : ℝ) < (q + 1) ^ 2 := by
    have hnat : P < (q + 1) * (q + 1) := by
      have hsq : (q + 1) * (q + 1) = q * q + 2 * q + 1 := by ring
      omega
    calc (P : ℝ) < ((q + 1) * (q + 1) : ℕ) := Nat.cast_lt.2 hnat
      _ = (q + 1) ^ 2 := by push_cast; ring
  refine ⟨√(P : ℝ) - q, ?_, ?_, ?_, by ring⟩
  · rw [sub_nonneg]
    refine Real.le_sqrt_of_sq_le ?_
    rw [hP]
    exact le_add_of_nonneg_right (Nat.cast_nonneg rem)
  · rw [sub_lt_iff_lt_add']
    exact (Real.sqrt_lt' (by positivity)).2 hlt
  · rw [Ne, Ne, not_iff_not, sub_eq_zero, Real.sqrt_eq_iff_eq_sq (Nat.cast_nonneg P)
      (Nat.cast_nonneg q), hP, add_eq_left, Nat.cast_eq_zero]

/-- The parity of the exponent. -/
theorem expOdd_eq (fmt : Bool) (a : BitVec 64) :
    ((exp fmt a : ℤ) - bias fmt) =
      2 * (((exp fmt a : ℤ) - bias fmt) / 2) +
        ((exp fmt a).testBit 0 ^^ (bias fmt).testBit 0).toNat := by
  have hb : (bias fmt).testBit 0 = true := by cases fmt <;> decide
  have hb' : bias fmt % 2 = 1 := by cases fmt <;> decide
  rw [hb, Bool.xor_true, Nat.testBit_zero]
  by_cases h : exp fmt a % 2 = 1 <;> simp only [h, decide_true, decide_false, Bool.not_true,
    Bool.not_false, Bool.toNat_true, Bool.toNat_false] <;> omega

theorem rad_eq (fmt : Bool) (a : BitVec 64) :
    rad fmt a =
      sig fmt a * 2 ^ (56 + ((exp fmt a).testBit 0 ^^ (bias fmt).testBit 0).toNat) := by
  rw [rad]
  cases (exp fmt a).testBit 0 ^^ (bias fmt).testBit 0 <;> rfl

theorem rad_bounds (fmt : Bool) (a : BitVec 64) : 2 ^ 108 ≤ rad fmt a ∧ rad fmt a < 2 ^ 110 := by
  obtain ⟨ha, ha'⟩ := sig_bounds fmt a
  rw [rad]
  split <;> omega

/-- The part of the radicand that the steps of the format see is all of it. -/
theorem rad_seen (fmt : Bool) (a : BitVec 64) :
    rad fmt a / 2 ^ 44 * 4 ^ topBit fmt / 2 ^ 64 * 4 ^ (54 - topBit fmt) = rad fmt a := by
  have hm := sig_mod_lastBit fmt a
  rw [rad]
  cases fmt with
  | true =>
    simp only [topBit, if_true]
    split <;> omega
  | false =>
    simp only [topBit, lastBit, Bool.false_eq_true, if_false] at hm ⊢
    split <;> omega

/-- A magnitude by its radicand. -/
theorem mag_eq_rad (fmt : Bool) (a : BitVec 64) :
    mag ℝ fmt a = rad fmt a * (2 ^ (((exp fmt a : ℤ) - bias fmt) / 2 - 54)) ^ 2 := by
  have hodd := expOdd_eq fmt a
  rw [mag, rad_eq]
  generalize ((exp fmt a).testBit 0 ^^ (bias fmt).testBit 0).toNat = o at *
  generalize ((exp fmt a : ℤ) - bias fmt) / 2 = E at *
  rw [hodd]
  push_cast
  rw [mul_assoc, ← zpow_natCast, ← zpow_natCast, ← zpow_mul, ← zpow_add₀ two_ne_zero]
  congr 2
  push_cast
  ring

/-- The root of a magnitude. -/
theorem root_eq (h : q * q + rem = rad fmt a / 2 ^ 44 * 4 ^ topBit fmt / 2 ^ 64)
    (hle : rem ≤ 2 * q) :
    ∃ r : ℝ, 0 ≤ r ∧ r < 1 ∧ (rem ≠ 0 ↔ r ≠ 0) ∧
      √(mag ℝ fmt a) = (q + r) * 2 ^ (((exp fmt a : ℤ) - bias fmt) / 2 - topBit fmt) := by
  obtain ⟨r, h0, h1, hr, hroot⟩ := root_frac h hle
  refine ⟨r, h0, h1, hr, ?_⟩
  have hseen := rad_seen fmt a
  have htop : topBit fmt ≤ 54 := by cases fmt <;> decide
  generalize hP : rad fmt a / 2 ^ 44 * 4 ^ topBit fmt / 2 ^ 64 = P at *
  have hcast : (rad fmt a : ℝ) = P * (2 ^ (54 - topBit fmt)) ^ 2 := by
    rw [← hseen, ← pow_mul, mul_comm _ 2, pow_mul]
    push_cast
    norm_num
  have hE : (2 : ℝ) ^ (((exp fmt a : ℤ) - bias fmt) / 2 - topBit fmt) =
      2 ^ (54 - topBit fmt) * 2 ^ (((exp fmt a : ℤ) - bias fmt) / 2 - 54) := by
    rw [← zpow_natCast, ← zpow_add₀ two_ne_zero, Nat.cast_sub htop]
    congr 1
    push_cast
    ring
  rw [mag_eq_rad, hcast, hE, ← hroot, mul_assoc, ← mul_pow, Real.sqrt_mul (Nat.cast_nonneg P),
    Real.sqrt_sq (by positivity)]

/-- The bits of a root. -/
theorem root_bounds (h : q * q + rem = rad fmt a / 2 ^ 44 * 4 ^ topBit fmt / 2 ^ 64)
    (hle : rem ≤ 2 * q) : 2 ^ topBit fmt ≤ q ∧ q < 2 ^ (topBit fmt + 1) := by
  obtain ⟨hl, hh⟩ := rad_bounds fmt a
  have hseen := rad_seen fmt a
  have hsq : (q + 1) * (q + 1) = q * q + 2 * q + 1 := by ring
  generalize rad fmt a / 2 ^ 44 * 4 ^ topBit fmt / 2 ^ 64 = P at *
  have hP : 2 ^ topBit fmt * 2 ^ topBit fmt ≤ P ∧
      P < 2 ^ (topBit fmt + 1) * 2 ^ (topBit fmt + 1) := by
    cases fmt with
    | true =>
      simp only [topBit, if_true] at hseen ⊢
      omega
    | false =>
      simp only [topBit, Bool.false_eq_true, if_false] at hseen ⊢
      omega
  constructor
  · by_contra hlt
    have hmul : (q + 1) * (q + 1) ≤ 2 ^ topBit fmt * 2 ^ topBit fmt :=
      Nat.mul_le_mul (by omega) (by omega)
    omega
  · by_contra hge
    have hmul : 2 ^ (topBit fmt + 1) * 2 ^ (topBit fmt + 1) ≤ q * q :=
      Nat.mul_le_mul (not_lt.1 hge) (not_lt.1 hge)
    omega

end Values

/-! ## A pass -/

/-- The operands of which a pass has an arithmetic result. -/
def Arith (isSqrt fmt : Bool) (a b : BitVec 64) : Prop :=
  Normal fmt a ∧ if isSqrt then sgn fmt a = false else Normal fmt b

/-- What a pass computes: the exact result rounded once, and `denorm` for a denormal operand
or a result that rounds to below the normal range. -/
structure PassSpec (isSqrt fmt : Bool) (rm : RoundMode) (a b : BitVec 64) (o : Out) : Prop where
  correct : Arith isSqrt fmt a b → o.denorm = false →
    Correct fmt rm (divSign isSqrt fmt a b) (exactPass isSqrt fmt a b) o.y o.fflags
  denorm : o.denorm = true ↔ divDenorm isSqrt fmt a b = true ∨
    Arith isSqrt fmt a b ∧ Tiny fmt rm (divSign isSqrt fmt a b) (exactPass isSqrt fmt a b)
  early : ¬ Arith isSqrt fmt a b → o.y = opEarlyY isSqrt fmt a b

section Pass

variable {isSqrt fmt : Bool} {rm : RoundMode} {a b : BitVec 64} {d : FpDivider}

/-- The other operands do not enter the recurrence. -/
theorem arith_iff :
    Arith isSqrt fmt a b ↔
      (opEarly isSqrt fmt a b || divDenorm isSqrt fmt a b) = false := by
  cases isSqrt with
  | true =>
    simp only [Arith, opEarly, divDenorm, sqrtInv, normal_iff, if_true, Bool.not_true,
      Bool.false_and, Bool.or_false, Bool.or_eq_false_iff, Bool.and_eq_false_iff,
      Bool.not_eq_false', isSnan]
    cases sgn fmt a <;> cases isNan fmt a <;> cases isZero fmt a <;> simp [and_comm]
  | false =>
    simp only [Arith, opEarly, divDenorm, normal_iff, special, Bool.false_eq_true, if_false,
      Bool.not_false, Bool.true_and, Bool.or_eq_false_iff]
    tauto

/-- What the recurrence leaves is the exact result, normalized. -/
theorem norm_of_complete (hf : d.fmt = fmt) (hs : d.isSqrt = isSqrt)
    (he : d.ebase = opEbase isSqrt fmt a b)
    (hc : FpDivider.Complete isSqrt (sig fmt a) (sig fmt b) (rad fmt a) (lastStep isSqrt fmt) d.q
      d.rem) :
    Norm fmt d.normSig d.normEbase (exactPass isSqrt fmt a b) := by
  subst hf
  rw [lastStep_eq] at hc
  cases isSqrt with
  | true =>
    obtain ⟨h, hle⟩ := hc
    obtain ⟨r, h0, h1, hr, hroot⟩ := root_eq h hle
    obtain ⟨hl, hh⟩ := root_bounds h hle
    rw [exactPass, if_pos rfl, hroot, FpDivider.normEbase, hs, if_pos rfl, he]
    refine (FpDivider.norm_low hl hh h0 h1 hr ?_).1
    rw [opEbase, if_pos rfl]
    ring
  | false =>
    obtain ⟨h, hlt⟩ := hc
    have hB : (0 : ℝ) < sig d.fmt b :=
      Nat.cast_pos.2 ((Nat.two_pow_pos 52).trans_le (sig_bounds d.fmt b).1)
    have h0 : (0 : ℝ) ≤ d.rem / sig d.fmt b := div_nonneg (Nat.cast_nonneg _) hB.le
    have h1 : (d.rem : ℝ) / sig d.fmt b < 1 := (div_lt_one hB).2 (Nat.cast_lt.2 hlt)
    have hr : d.rem ≠ 0 ↔ (d.rem : ℝ) / sig d.fmt b ≠ 0 := by
      rw [Ne, Ne, div_eq_zero_iff, Nat.cast_eq_zero, or_iff_left hB.ne']
    obtain ⟨hl, hh⟩ := quotient_bounds h hlt
    rw [exactPass, if_neg Bool.false_ne_true, quotient_eq h, FpDivider.normEbase, hs,
      if_neg Bool.false_ne_true, he, opEbase, if_neg Bool.false_ne_true]
    by_cases hge : 2 ^ (topBit d.fmt + 1) ≤ d.q
    · obtain ⟨hn, hg⟩ := FpDivider.norm_high (e := (exp d.fmt a : ℤ) - exp d.fmt b + bias d.fmt)
        (u := (exp d.fmt a : ℤ) - exp d.fmt b - (topBit d.fmt + 1 : ℕ)) hs hge hh h0 h1 hr
        (by push_cast; ring)
      rw [hg, Bool.not_true, Bool.toNat_false, Nat.cast_zero, sub_zero]
      exact hn
    · obtain ⟨hn, hg⟩ := FpDivider.norm_low
        (e := (exp d.fmt a : ℤ) - exp d.fmt b + bias d.fmt - 1)
        (u := (exp d.fmt a : ℤ) - exp d.fmt b - (topBit d.fmt + 1 : ℕ)) hl (not_le.1 hge) h0 h1 hr
        (by push_cast; ring)
      rw [hg, Bool.not_false, Bool.toNat_true, Nat.cast_one]
      exact hn

/-- An arithmetic result raises no flag of its operands. -/
theorem flags_of_arith (h : Arith isSqrt fmt a b) :
    opInv isSqrt fmt a b = false ∧ opDz isSqrt fmt a b = false ∧
      divDenorm isSqrt fmt a b = false := by
  obtain ⟨he, hd⟩ := Bool.or_eq_false_iff.1 (arith_iff.1 h)
  cases isSqrt with
  | true =>
    simp only [opEarly, if_true, Bool.or_eq_false_iff] at he
    exact ⟨he.2, rfl, hd⟩
  | false =>
    simp only [opEarly, special, Bool.false_eq_true, if_false, Bool.or_eq_false_iff] at he
    simp [opInv, opDz, divDz, divUndefined, isSnan, he, hd]

/-- The last stage on an arithmetic result. -/
theorem passSpec_of_norm (hn : Norm fmt d.sig d.ebase (exactPass isSqrt fmt a b))
    (ha : Arith isSqrt fmt a b) (hf : d.fmt = fmt) (hr : d.rm = rm) (hs : d.special = false)
    (hg : d.sign = divSign isSqrt fmt a b) (hi : d.inv = false) (hz : d.dz = false)
    (hd : d.inden = false) : PassSpec isSqrt fmt rm a b d.roundOut := by
  have hout : d.roundOut =
      ⟨d.sig.packed fmt rm d.sign d.ebase, d.sig.underflow fmt rm d.sign d.ebase,
        ⟨false, false, d.sig.overflow fmt rm d.sign d.ebase,
          d.sig.underflow fmt rm d.sign d.ebase,
          d.sig.inexact fmt || d.sig.overflow fmt rm d.sign d.ebase⟩⟩ := by
    simp [FpDivider.roundOut, hf, hr, hs, hi, hz, hd, Sig.packed]
  have hden := (flags_of_arith ha).2.2
  rw [hout, hg]
  refine ⟨?_, ?_, fun h => absurd ha h⟩
  · intro _ hu
    have hu' : d.sig.underflow fmt rm (divSign isSqrt fmt a b) d.ebase = false := hu
    rw [hu']
    exact hn.correct rm _ hu'
  · rw [hden, hn.underflow_iff]
    simp [ha]

/-- The last stage without arithmetic. -/
theorem passSpec_of_special (ha : ¬ Arith isSqrt fmt a b) (hs : d.special = true)
    (hd : d.inden = divDenorm isSqrt fmt a b) (hy : d.earlyY = opEarlyY isSqrt fmt a b) :
    PassSpec isSqrt fmt rm a b d.roundOut := by
  refine ⟨fun h => absurd h ha, ?_, fun _ => ?_⟩
  · simp [FpDivider.roundOut, hs, hd, ha]
  · simp [FpDivider.roundOut, hs, hy]

end Pass

/-- The unit at the end of a pass. -/
structure Passed (isSqrt fmt : Bool) (rm : RoundMode) (a b : BitVec 64) (rsqrt ph1Denorm : Bool)
    (ph1 : Fflags) (e : FpDivider) : Prop where
  state : e.state = if rsqrt then .fpRsqrt2 else .fpWaitwb
  fmt_eq : e.fmt = fmt
  rm_eq : e.rm = rm
  ph1Denorm_eq : e.ph1Denorm = ph1Denorm
  ph1_eq : e.ph1 = ph1
  spec : PassSpec isSqrt fmt rm a b ⟨e.y, e.denorm, e.fflags⟩

section Run

variable (d : FpDivider) (isSqrt fmt : Bool) (rm : RoundMode) (a b : BitVec 64)
  (rsqrt ph1Denorm : Bool) (ph1 : Fflags)

/-- The first step of the recurrence. -/
theorem iterating_loaded :
    (d.loaded isSqrt fmt rm a b rsqrt ph1Denorm ph1).Iterating (sig fmt a) (rad fmt a) 0
      (d.loaded isSqrt fmt rm a b rsqrt ph1Denorm ph1) := by
  refine ⟨rfl, ?_⟩
  show FpDivider.Partial isSqrt (sig fmt a) (sig fmt b) (rad fmt a) 0 0
    (if isSqrt then rad fmt a / 2 ^ 108 else sig fmt a)
    (if isSqrt then rad fmt a / 2 ^ 44 % 2 ^ 64 else 0)
  cases isSqrt with
  | true =>
    obtain ⟨-, hh⟩ := rad_bounds fmt a
    have hP : rad fmt a / 2 ^ 44 * 4 ^ 0 / 2 ^ 64 = rad fmt a / 2 ^ 108 := by omega
    rw [FpDivider.Partial, if_pos rfl, if_pos rfl, if_pos rfl, hP, pow_zero, Nat.mul_one]
    exact ⟨Rooting.start (by omega), rfl⟩
  | false =>
    obtain ⟨ha, ha'⟩ := sig_bounds fmt a
    obtain ⟨hb, hb'⟩ := sig_bounds fmt b
    exact ⟨Dividing.start (by omega), rfl⟩

/-- The special path: the last stage at once. -/
theorem pass_of_special (ins : ℕ → DivIn)
    (hcond : (opEarly isSqrt fmt a b || divDenorm isSqrt fmt a b) = true) :
    Passed isSqrt fmt rm a b rsqrt ph1Denorm ph1
      ((d.loaded isSqrt fmt rm a b rsqrt ph1Denorm ph1).run ins 1) ∧
    (d.loaded isSqrt fmt rm a b rsqrt ph1Denorm ph1).state ≠ .fpWaitwb := by
  have hna : ¬ Arith isSqrt fmt a b := fun h => by
    rw [arith_iff.1 h] at hcond
    exact Bool.false_ne_true hcond
  have hstate : (d.loaded isSqrt fmt rm a b rsqrt ph1Denorm ph1).state = .fpRound := if_pos hcond
  have hspec : PassSpec isSqrt fmt rm a b
      (d.loaded isSqrt fmt rm a b rsqrt ph1Denorm ph1).roundOut :=
    passSpec_of_special hna hcond rfl rfl
  generalize hd₀ : d.loaded isSqrt fmt rm a b rsqrt ph1Denorm ph1 = d₀ at *
  have hrun : d₀.run ins 1 =
      { d₀ with
        y := d₀.roundOut.y, denorm := d₀.roundOut.denorm, fflags := d₀.roundOut.fflags
        state := if d₀.rsqrt then .fpRsqrt2 else .fpWaitwb } := by
    show d₀.next (ins 0) = _
    simp only [FpDivider.next, hstate]
  rw [hrun]
  subst hd₀
  exact ⟨⟨rfl, rfl, rfl, rfl, rfl, hspec⟩, by rw [hstate]; decide⟩

/-- The recurrence, the normalization and the rounding. -/
theorem pass_of_arith (ins : ℕ → DivIn) (hf : ∀ t, (ins t).flush = false)
    (ha : Arith isSqrt fmt a b) :
    Passed isSqrt fmt rm a b rsqrt ph1Denorm ph1
      ((d.loaded isSqrt fmt rm a b rsqrt ph1Denorm ph1).run ins (lastStep isSqrt fmt + 3)) ∧
    ∀ m < lastStep isSqrt fmt + 3,
      ((d.loaded isSqrt fmt rm a b rsqrt ph1Denorm ph1).run ins m).state ≠ .fpWaitwb := by
  have hit := iterating_loaded d isSqrt fmt rm a b rsqrt ph1Denorm ph1
  have hcond := arith_iff.1 ha
  obtain ⟨hi, hz, hd⟩ := flags_of_arith ha
  have hl : lastStep isSqrt fmt < 56 := by cases isSqrt <;> cases fmt <;> decide
  have hB : sig fmt b < 2 ^ 53 := (sig_bounds fmt b).2
  have hstate : (d.loaded isSqrt fmt rm a b rsqrt ph1Denorm ph1).state = .iter :=
    if_neg (Bool.eq_false_iff.1 hcond)
  have hit' := FpDivider.iterating_run (k := lastStep isSqrt fmt) ins hit hstate hB hl hf le_rfl
  obtain ⟨q, rem, src, cnt, hlast, hc⟩ := hit'.last hstate hl (hf (lastStep isSqrt fmt))
  obtain ⟨hround, hend⟩ := FpDivider.round_next _ (ins (lastStep isSqrt fmt + 1))
    (ins (lastStep isSqrt fmt + 2)) (congrArg FpDivider.state hlast)
  constructor
  · show Passed isSqrt fmt rm a b rsqrt ph1Denorm ph1
      (((((d.loaded isSqrt fmt rm a b rsqrt ph1Denorm ph1).run ins (lastStep isSqrt fmt)).next _).next
        _).next _)
    rw [hend, hlast]
    refine ⟨rfl, rfl, rfl, rfl, rfl, ?_⟩
    refine passSpec_of_norm ?_ ha rfl rfl hcond rfl hi hz hd
    exact norm_of_complete (d := { d.loaded isSqrt fmt rm a b rsqrt ph1Denorm ph1 with
      q, rem, src, cnt, state := .fpNorm }) rfl rfl rfl hc
  · intro m hm
    obtain hle | rfl | rfl : m ≤ lastStep isSqrt fmt ∨ m = lastStep isSqrt fmt + 1 ∨
        m = lastStep isSqrt fmt + 2 := by omega
    · rw [(FpDivider.iterating_run (k := m) ins hit hstate hB hl hf hle).busy hstate]
      decide
    · show (((d.loaded isSqrt fmt rm a b rsqrt ph1Denorm ph1).run ins
        (lastStep isSqrt fmt)).next _).state ≠ _
      rw [hlast]
      exact FpDivState.noConfusion
    · show ((((d.loaded isSqrt fmt rm a b rsqrt ph1Denorm ph1).run ins
        (lastStep isSqrt fmt)).next _).next _).state ≠ _
      rw [hround]
      decide

/-- **A pass** ends, without a result in between. -/
theorem pass_run (ins : ℕ → DivIn) (hf : ∀ t, (ins t).flush = false) :
    ∃ n, Passed isSqrt fmt rm a b rsqrt ph1Denorm ph1
        ((d.loaded isSqrt fmt rm a b rsqrt ph1Denorm ph1).run ins n) ∧
      ∀ m < n, ((d.loaded isSqrt fmt rm a b rsqrt ph1Denorm ph1).run ins m).state ≠ .fpWaitwb := by
  by_cases ha : Arith isSqrt fmt a b
  · exact ⟨_, pass_of_arith d isSqrt fmt rm a b rsqrt ph1Denorm ph1 ins hf ha⟩
  · have hcond : (opEarly isSqrt fmt a b || divDenorm isSqrt fmt a b) = true := by
      rw [← Bool.not_eq_false]
      exact fun h => ha (arith_iff.2 h)
    obtain ⟨hp, hs⟩ := pass_of_special d isSqrt fmt rm a b rsqrt ph1Denorm ph1 ins hcond
    refine ⟨1, hp, fun m hm => ?_⟩
    obtain rfl : m = 0 := by omega
    exact hs

end Run

/-! ## Reciprocal square roots -/

section Rsqrt

variable {fmt : Bool} {rm : RoundMode} {a : BitVec 64}

/-- The binade of a magnitude. -/
theorem mag_bounds (fmt : Bool) (a : BitVec 64) :
    (2 : ℝ) ^ ((exp fmt a : ℤ) - bias fmt) ≤ mag ℝ fmt a ∧
      mag ℝ fmt a < 2 ^ ((exp fmt a : ℤ) - bias fmt + 1) := by
  obtain ⟨hl, hh⟩ := sig_bounds fmt a
  have hu : (0 : ℝ) < 2 ^ ((exp fmt a : ℤ) - bias fmt - 52) := zpow_pos two_pos _
  have hlow : (2 : ℝ) ^ ((exp fmt a : ℤ) - bias fmt) =
      2 ^ 52 * 2 ^ ((exp fmt a : ℤ) - bias fmt - 52) := by
    rw [← zpow_natCast, ← zpow_add₀ two_ne_zero]
    congr 1
    push_cast
    ring
  have hhigh : (2 : ℝ) ^ ((exp fmt a : ℤ) - bias fmt + 1) =
      2 ^ 53 * 2 ^ ((exp fmt a : ℤ) - bias fmt - 52) := by
    rw [← zpow_natCast, ← zpow_add₀ two_ne_zero]
    congr 1
    push_cast
    ring
  rw [hlow, hhigh, mag]
  constructor
  · refine mul_le_mul_of_nonneg_right ?_ hu.le
    exact_mod_cast hl
  · refine mul_lt_mul_of_pos_right ?_ hu
    exact_mod_cast hh

/-- The binade of a number from its rounding. -/
theorem RoundsTo.binade {neg : Bool} {x : ℝ} {e : ℤ} {m : ℕ} {i : Bool}
    (h : RoundsTo fmt rm neg x e m i) :
    (2 : ℝ) ^ (e - 1 - bias fmt) ≤ x ∧ x < 2 ^ (e + 1 - bias fmt) := by
  obtain ⟨u, r, hl, hh, -, -, hm⟩ := h
  have hu : (0 : ℝ) < 2 ^ u := zpow_pos two_pos u
  have he : u + fracBits fmt + bias fmt ≤ e ∧ e ≤ u + fracBits fmt + bias fmt + 1 := by
    split at hm <;> omega
  rw [le_div_iff₀ hu, ← zpow_natCast, ← zpow_add₀ two_ne_zero] at hl
  rw [div_lt_iff₀ hu, ← zpow_natCast, ← zpow_add₀ two_ne_zero] at hh
  constructor
  · exact (zpow_le_zpow_right₀ one_le_two (by omega)).trans hl
  · refine hh.trans_le (zpow_le_zpow_right₀ one_le_two ?_)
    push_cast
    omega

/-- The roots of the normal numbers lie well inside the normal range. -/
theorem sqrt_bounds (ha : Normal fmt a) :
    (2 : ℝ) ^ (1 - bias fmt : ℤ) ≤ √(mag ℝ fmt a) ∧
      √(mag ℝ fmt a) < 2 ^ ((bias fmt + 1) / 2 : ℤ) := by
  obtain ⟨hl, hh⟩ := mag_bounds fmt a
  obtain ⟨h0, h1⟩ := ha
  obtain ⟨hinf, hodd⟩ : infExp fmt = 2 * bias fmt + 1 ∧ bias fmt % 2 = 1 := by
    cases fmt <;> decide
  constructor
  · refine Real.le_sqrt_of_sq_le (le_trans ?_ hl)
    rw [← zpow_natCast, ← zpow_mul]
    refine zpow_le_zpow_right₀ one_le_two ?_
    push_cast
    omega
  · refine (Real.sqrt_lt' (zpow_pos two_pos _)).2 (hh.trans_le ?_)
    rw [← zpow_natCast, ← zpow_mul]
    refine zpow_le_zpow_right₀ one_le_two ?_
    push_cast
    omega

/-- The exponent of a rounded root. -/
theorem root_exp (ha : Normal fmt a) {e : ℤ} {m : ℕ} {i : Bool}
    (h : RoundsTo fmt rm false √(mag ℝ fmt a) e m i) :
    0 < e ∧ e < infExp fmt ∧ e ≤ 2 * bias fmt - 2 := by
  obtain ⟨hl, hh⟩ := sqrt_bounds ha
  obtain ⟨hel, heh⟩ := h.binade
  obtain ⟨hinf, hb⟩ : infExp fmt = 2 * bias fmt + 1 ∧ 127 ≤ bias fmt := by
    cases fmt <;> decide
  have hpos := (zpow_lt_zpow_iff_right₀ one_lt_two).1 (hl.trans_lt heh)
  have hlt := (zpow_lt_zpow_iff_right₀ one_lt_two).1 (hel.trans_lt hh)
  omega

/-- A rounded root is a positive normal number. -/
theorem root_normal (ha : Normal fmt a) {y : BitVec 64} {fl : Fflags}
    (h : Correct fmt rm false √(mag ℝ fmt a) y fl) :
    Normal fmt y ∧ sgn fmt y = false ∧ (exp fmt y : ℤ) ≤ 2 * bias fmt - 2 := by
  obtain ⟨e, m, inexact, hr, rfl, -⟩ := h
  obtain ⟨h0, h1, h2⟩ := root_exp ha hr
  obtain ⟨he, hs⟩ := exp_word fmt false (e := e.toNat) (m - 2 ^ fracBits fmt) (by omega)
  rw [encode, if_neg (by omega), Normal, he, hs]
  exact ⟨by omega, rfl, by omega⟩

theorem mag_one (fmt : Bool) : mag ℝ fmt (one fmt) = 1 := by
  have hf : frac fmt (one fmt) = 0 ∧ exp fmt (one fmt) = bias fmt := by cases fmt <;> decide
  rw [mag, sig, hf.1, hf.2, sub_self, zero_sub, zpow_neg]
  norm_num

theorem normal_one (fmt : Bool) : Normal fmt (one fmt) := by cases fmt <;> decide

theorem sgn_one (fmt : Bool) : sgn fmt (one fmt) = false := by cases fmt <;> decide

/-- The reciprocal of a rounded root is not below the normal range. -/
theorem recip_not_tiny {y : BitVec 64} (h : (exp fmt y : ℤ) ≤ 2 * bias fmt - 2) :
    ¬ Tiny fmt rm false (1 / mag ℝ fmt y) := by
  rintro ⟨e, m, i, hr, he⟩
  obtain ⟨-, hx⟩ := hr.binade
  obtain ⟨hl, hh⟩ := mag_bounds fmt y
  have hpos : 0 < mag ℝ fmt y := (zpow_pos two_pos _).trans_le hl
  have hlow : (2 : ℝ) ^ (-((exp fmt y : ℤ) - bias fmt + 1)) < 1 / mag ℝ fmt y := by
    rw [zpow_neg, one_div]
    exact inv_strictAnti₀ hpos hh
  have hlt := (zpow_lt_zpow_iff_right₀ one_lt_two).1 (hlow.trans hx)
  omega

/-- A special result of a square root is neither normal nor denormal. -/
theorem early_plain (fmt : Bool) (a b : BitVec 64) :
    ¬ Normal fmt (opEarlyY true fmt a b) ∧ isDenorm fmt (opEarlyY true fmt a b) = false := by
  have hnan : ¬ Normal fmt (defNan fmt) ∧ isDenorm fmt (defNan fmt) = false := by
    cases fmt <;> decide
  have hinf : ¬ Normal fmt (infinity fmt false) ∧ isDenorm fmt (infinity fmt false) = false := by
    cases fmt <;> decide
  have hzero (s : Bool) : ¬ Normal fmt (zero fmt s) ∧ isDenorm fmt (zero fmt s) = false := by
    cases fmt <;> cases s <;> decide
  rw [opEarlyY, if_pos rfl]
  split
  · exact hnan
  · split
    · exact hinf
    · exact hzero _

/-- What a reciprocal square root computes: the reciprocal of the rounded root, rounded, with
the flags of both. -/
structure RsqrtSpec (fmt : Bool) (rm : RoundMode) (a : BitVec 64) (o : Out) : Prop where
  correct : Normal fmt a → sgn fmt a = false → ∃ (root recip : BitVec 64) (fl fl' : Fflags),
    Correct fmt rm false √(mag ℝ fmt a) root fl ∧ Normal fmt root ∧ sgn fmt root = false ∧
      Correct fmt rm false (1 / mag ℝ fmt root) recip fl' ∧ o.y = recip ∧ o.fflags = fl'.or fl
  denorm : o.denorm = true ↔ isDenorm fmt a = true

/-- **The two passes** of a reciprocal square root. -/
theorem rsqrt_of_passes {b : BitVec 64} {o o' : Out} (h : PassSpec true fmt rm a b o)
    (h' : PassSpec false fmt rm (one fmt) o.y o') :
    RsqrtSpec fmt rm a ⟨o'.y, o'.denorm || o.denorm, o'.fflags.or o.fflags⟩ := by
  have hone : isDenorm fmt (one fmt) = false := by cases fmt <;> decide
  have hx : exactPass true fmt a b = √(mag ℝ fmt a) := rfl
  have hx' : exactPass false fmt (one fmt) o.y = 1 / mag ℝ fmt o.y := by
    rw [exactPass, if_neg Bool.false_ne_true, mag_one]
  by_cases ha : Arith true fmt a b
  · have hn : Normal fmt a := ha.1
    have hs : sgn fmt a = false := ha.2
    have hd : isDenorm fmt a = false := ((normal_iff fmt a).1 hn).2.1
    have hsign : divSign true fmt a b = false := hs
    have hden : divDenorm true fmt a b = false := by simp [divDenorm, hd]
    have hod : o.denorm = false := by
      rw [← Bool.not_eq_true, h.denorm, hden, hx, hsign]
      rintro (hf | ⟨-, e, m, i, hr, he⟩)
      · exact Bool.false_ne_true hf
      · exact absurd (root_exp hn hr).1 (not_lt.2 he)
    have hroot := h.correct ha hod
    rw [hx, hsign] at hroot
    obtain ⟨hny, hsy, hey⟩ := root_normal hn hroot
    have hdy : isDenorm fmt o.y = false := ((normal_iff fmt o.y).1 hny).2.1
    have ha' : Arith false fmt (one fmt) o.y := ⟨normal_one fmt, hny⟩
    have hsign' : divSign false fmt (one fmt) o.y = false := by
      rw [divSign, if_neg Bool.false_ne_true, sgn_one, hsy]
      rfl
    have hden' : divDenorm false fmt (one fmt) o.y = false := by simp [divDenorm, hone, hdy]
    have hod' : o'.denorm = false := by
      rw [← Bool.not_eq_true, h'.denorm, hden', hx', hsign']
      rintro (hf | ⟨-, ht⟩)
      · exact Bool.false_ne_true hf
      · exact recip_not_tiny hey ht
    have hrecip := h'.correct ha' hod'
    rw [hx', hsign'] at hrecip
    exact ⟨fun _ _ => ⟨o.y, o'.y, _, _, hroot, hny, hsy, hrecip, rfl, rfl⟩, by simp [hod, hod', hd]⟩
  · obtain ⟨hny, hdy⟩ := early_plain fmt a b
    have hy := h.early ha
    rw [← hy] at hny hdy
    have hden' : divDenorm false fmt (one fmt) o.y = false := by simp [divDenorm, hone, hdy]
    have hod' : o'.denorm = false := by
      rw [← Bool.not_eq_true, h'.denorm, hden']
      rintro (hf | ⟨⟨-, hn⟩, -⟩)
      · exact Bool.false_ne_true hf
      · exact hny hn
    have hod : o.denorm = true ↔ isDenorm fmt a = true := by
      rw [h.denorm]
      simp [ha, divDenorm]
    exact ⟨fun hn hs => absurd ⟨hn, hs⟩ ha, by simpa [hod'] using hod⟩

end Rsqrt

/-! ## The law of the divider -/

/-- What an operation computes. -/
def DivSpec (r : DivReq) (o : Out) : Prop :=
  if r.op.isRsqrt then RsqrtSpec r.op.fmt r.rm r.a o
  else PassSpec r.op.isSqrt r.op.fmt r.rm r.a r.b o

theorem or_noFlags (f : Fflags) : f.or FpDivider.noFlags = f := by
  simp [Fflags.or, FpDivider.noFlags]

/-- A result is held until there is a slot. -/
theorem hold_run (d : FpDivider) (ins : ℕ → DivIn) (hs : d.state = .fpWaitwb) (t : ℕ)
    (hw : ∀ s < t, (ins s).wbUsed = true) : d.run ins t = d := by
  induction t with
  | zero => rfl
  | succ t ih =>
    show (d.run ins t).next (ins t) = d
    rw [ih fun s hst => hw s (by omega)]
    simp only [FpDivider.next, hs, hw t (by omega), if_true]

section Op

variable {d : FpDivider} {r : DivReq} {ins : ℕ → DivIn}

/-- A pass, from the cycle before it is loaded. -/
theorem pass_from {isSqrt fmt : Bool} {rm : RoundMode} {a b : BitVec 64} {rsqrt ph1Denorm : Bool}
    {ph1 : Fflags} (hs : d.state ≠ .fpWaitwb)
    (hload : d.next (ins 0) = d.loaded isSqrt fmt rm a b rsqrt ph1Denorm ph1)
    (hf : ∀ t, (ins t).flush = false) :
    ∃ n, Passed isSqrt fmt rm a b rsqrt ph1Denorm ph1 (d.run ins n) ∧
      ∀ m < n, (d.run ins m).state ≠ .fpWaitwb := by
  obtain ⟨n, hp, hb⟩ := pass_run d isSqrt fmt rm a b rsqrt ph1Denorm ph1
    (fun t => ins (1 + t)) fun t => hf (1 + t)
  have hone : d.run ins 1 = d.loaded isSqrt fmt rm a b rsqrt ph1Denorm ph1 := hload
  refine ⟨1 + n, ?_, fun m hm => ?_⟩
  · rw [FpDivider.run_add, hone]
    exact hp
  · rcases m with - | k
    · exact hs
    · rw [Nat.add_comm k 1, FpDivider.run_add, hone]
      exact hb k (by omega)

/-- The first pass of an operation. -/
theorem first_pass (hd : d.state = .idle) (hr : (ins 0).start = some r)
    (hf : ∀ t, (ins t).flush = false) :
    ∃ n, Passed r.op.isSqrt r.op.fmt r.rm r.a r.b r.op.isRsqrt false FpDivider.noFlags
        (d.run ins n) ∧ ∀ m < n, (d.run ins m).state ≠ .fpWaitwb :=
  pass_from (by rw [hd]; decide) (FpDivider.idle_next d hd hr (hf 0)) hf

/-- The second pass of a reciprocal square root. -/
theorem second_pass {fmt : Bool} {rm : RoundMode} {a b : BitVec 64}
    (hp : Passed true fmt rm a b true false FpDivider.noFlags d)
    (hf : ∀ t, (ins t).flush = false) :
    ∃ n, Passed false fmt rm (one fmt) d.y false d.denorm d.fflags (d.run ins n) ∧
      ∀ m < n, (d.run ins m).state ≠ .fpWaitwb := by
  have hs : d.state = .fpRsqrt2 := hp.state
  refine pass_from (by rw [hs]; decide) ?_ hf
  rw [← hp.fmt_eq, ← hp.rm_eq]
  exact FpDivider.rsqrt2_next d hs (hf 0)

/-- An operation comes to its result. -/
theorem op_run (hd : d.state = .idle) (hr : (ins 0).start = some r)
    (hf : ∀ t, (ins t).flush = false) :
    ∃ n, (d.run ins n).state = .fpWaitwb ∧ DivSpec r (d.run ins n).out ∧
      ∀ m < n, (d.run ins m).state ≠ .fpWaitwb := by
  obtain ⟨n, hp, hb⟩ := first_pass hd hr hf
  cases hrs : r.op.isRsqrt with
  | false =>
    rw [hrs] at hp
    refine ⟨n, hp.state, ?_, hb⟩
    rw [DivSpec, hrs, if_neg Bool.false_ne_true, FpDivider.out, hp.ph1Denorm_eq, hp.ph1_eq,
      Bool.or_false, or_noFlags]
    exact hp.spec
  | true =>
    have hsq : r.op.isSqrt = true := by simp [DivOp.isSqrt, hrs]
    rw [hrs, hsq] at hp
    have hf' (t : ℕ) : ((fun t => ins (n + t)) t).flush = false := hf (n + t)
    obtain ⟨k, hp', hb'⟩ := second_pass hp hf'
    rw [← FpDivider.run_add] at hp'
    refine ⟨n + k, hp'.state, ?_, fun m hm => ?_⟩
    · rw [DivSpec, hrs, if_pos rfl, FpDivider.out, hp'.ph1Denorm_eq, hp'.ph1_eq]
      exact rsqrt_of_passes hp.spec hp'.spec
    · rcases Nat.lt_or_ge m n with hlt | hge
      · exact hb m hlt
      · obtain ⟨j, rfl⟩ := Nat.exists_eq_add_of_le hge
        rw [FpDivider.run_add]
        exact hb' j (by omega)

end Op

/-- **What the divider computes.**  After an operation that is not flushed has started, the
unit raises `fp_complete` in the first cycle from some point on in which the write port has a
slot, and in none before; its outputs are then what the operation computes. -/
theorem divider_correct (d : FpDivider) (r : DivReq) (ins : ℕ → DivIn) (hd : d.state = .idle)
    (hr : (ins 0).start = some r) (hf : ∀ t, (ins t).flush = false) :
    ∃ n, (∀ m < n, (d.run ins m).complete (ins m) = false) ∧
      ∀ t, (∀ s < t, (ins (n + s)).wbUsed = true) →
        (d.run ins (n + t)).complete (ins (n + t)) = !(ins (n + t)).wbUsed ∧
          DivSpec r (d.run ins (n + t)).out := by
  obtain ⟨n, hs, ho, hb⟩ := op_run hd hr hf
  refine ⟨n, fun m hm => ?_, fun t hw => ?_⟩
  · simp [FpDivider.complete, hb m hm]
  · rw [FpDivider.run_add, hold_run _ _ hs t hw]
    exact ⟨by simp [FpDivider.complete, hs], ho⟩

/-- The unit at rest. -/
def atRest : FpDivider :=
  { state := .idle, rem := 0, q := 0, opb := 0, src := 0, cnt := 0, last := 0, isSqrt := false
    rm := .nearest, fmt := false, sign := false, ebase := 0, special := false, earlyY := 0
    inv := false, dz := false, inden := false, rsqrt := false, ph1Denorm := false
    ph1 := FpDivider.noFlags, sig := ⟨0, false, false, false⟩, y := 0
    fflags := FpDivider.noFlags, denorm := false }

/-- `1 / 3` in double precision. -/
def third : DivReq := ⟨.dpDiv, 0x3ff0000000000000#64, 0x4008000000000000#64, .nearest⟩

/-- The inputs that start it. -/
def thirdIns (t : ℕ) : DivIn := ⟨if t = 0 then some third else none, false, false⟩

theorem divider_correct_third :
    (atRest.run thirdIns 59).out.y = 0x3fd5555555555555#64 ∧
      ∃ n, (∀ m < n, (atRest.run thirdIns m).complete (thirdIns m) = false) ∧
        ∀ t, (∀ s < t, (thirdIns (n + s)).wbUsed = true) →
          (atRest.run thirdIns (n + t)).complete (thirdIns (n + t)) = !(thirdIns (n + t)).wbUsed ∧
            DivSpec third (atRest.run thirdIns (n + t)).out :=
  ⟨by decide +kernel, divider_correct atRest third thirdIns rfl rfl fun _ => rfl⟩

end R9999.Fpu
