import R9999.Hw.Rounding

/-!
# Floating-point formats

The two formats of the floating-point units and what a correctly rounded result is.  `fmt`
is true for double precision; single precision lies in the low half of a register, and the
units hold its fraction left-justified in the field of a double.

`RoundsTo` rounds a positive number once to the precision of the format with no bound on the
exponent; `encode` is what the format has for the result, with the overflow results the
rounding mode prescribes.  They are stated over any ordered field: the sums, products and
quotients are rationals, the square roots reals.
-/

open Hw (RoundMode Rounds)

namespace R9999.Fpu

section Fields

variable (fmt : Bool) (a : BitVec 64)

/-- `sgn_a`. -/
def sgn : Bool := if fmt then a.getLsbD 63 else a.getLsbD 31

/-- `exp_a`. -/
def exp : ℕ := if fmt then (a.extractLsb' 52 11).toNat else (a.extractLsb' 23 8).toNat

/-- `frac_a`: a single's fraction is left-justified. -/
def frac : ℕ := if fmt then (a.extractLsb' 0 52).toNat else (a.extractLsb' 0 23).toNat * 2 ^ 29

/-- `INF_EXP`. -/
def infExp : ℕ := if fmt then 2047 else 255

/-- `BIAS`. -/
def bias : ℕ := if fmt then 1023 else 127

/-- The width of the fraction. -/
def fracBits : ℕ := if fmt then 52 else 23

/-- The weight of the last bit of a fraction held left-justified. -/
def lastBit : ℕ := if fmt then 1 else 2 ^ 29

/-- `a_is_zero`. -/
def isZero : Bool := exp fmt a == 0 && frac fmt a == 0

/-- `a_is_nan`. -/
def isNan : Bool := exp fmt a == infExp fmt && frac fmt a != 0

/-- `a_is_inf`. -/
def isInf : Bool := exp fmt a == infExp fmt && frac fmt a == 0

/-- `a_is_snan`: in the legacy encoding a signalling NaN has the top bit of its fraction set. -/
def isSnan : Bool := isNan fmt a && a.getLsbD (if fmt then 51 else 22)

/-- A denormal operand. -/
def isDenorm : Bool := exp fmt a == 0 && frac fmt a != 0

/-- A normal operand. -/
def Normal : Prop := 0 < exp fmt a ∧ exp fmt a < infExp fmt

instance : Decidable (Normal fmt a) := inferInstanceAs (Decidable (_ ∧ _))

/-- The significand of a normal operand, hidden bit included. -/
def sig : ℕ := 2 ^ 52 + frac fmt a

/-- The exponent of an operand is at most that of the special values. -/
theorem exp_le : exp fmt a ≤ infExp fmt := by
  cases fmt with
  | true => exact Nat.le_of_lt_succ (a.extractLsb' 52 11).isLt
  | false => exact Nat.le_of_lt_succ (a.extractLsb' 23 8).isLt

/-- The normal operands are those of no other class. -/
theorem normal_iff :
    Normal fmt a ↔ isZero fmt a = false ∧ isDenorm fmt a = false ∧ isNan fmt a = false ∧
      isInf fmt a = false := by
  have hle := exp_le fmt a
  simp only [Normal, isZero, isDenorm, isNan, isInf, Bool.and_eq_false_iff, beq_eq_false_iff_ne,
    bne_eq_false_iff_eq, ne_eq]
  omega

theorem frac_lt : frac fmt a < 2 ^ 52 := by
  cases fmt with
  | true => exact (a.extractLsb' 0 52).isLt
  | false =>
    have h := (a.extractLsb' 0 23).isLt
    simp only [frac, Bool.false_eq_true, if_false]
    omega

theorem sig_bounds : 2 ^ 52 ≤ sig fmt a ∧ sig fmt a < 2 ^ 53 := by
  have h := frac_lt fmt a
  rw [sig]
  omega

end Fields

section Pairs

variable {fmt : Bool} {a b : BitVec 64}

/-- `special`: an operand is a NaN or an infinity. -/
def special (fmt : Bool) (a b : BitVec 64) : Bool :=
  isNan fmt a || isNan fmt b || isInf fmt a || isInf fmt b

/-- `s1_in_denorm`. -/
def inDenorm (fmt : Bool) (a b : BitVec 64) : Bool := isDenorm fmt a || isDenorm fmt b

/-- The operands with an arithmetic result are the normal ones. -/
theorem normal_both_iff :
    Normal fmt a ∧ Normal fmt b ↔
      special fmt a b = false ∧ inDenorm fmt a b = false ∧ isZero fmt a = false ∧
        isZero fmt b = false := by
  simp only [normal_iff, special, inDenorm, Bool.or_eq_false_iff]
  tauto

end Pairs

section Words

variable (fmt neg : Bool)

/-- A word of the format from its fields. -/
def word (e f : ℕ) : BitVec 64 :=
  if fmt then BitVec.ofBool neg ++ BitVec.ofNat 11 e ++ BitVec.ofNat 52 f
  else 0#32 ++ (BitVec.ofBool neg ++ BitVec.ofNat 8 e ++ BitVec.ofNat 23 f)

/-- `inf_y`. -/
def infinity : BitVec 64 := word fmt neg (infExp fmt) 0

/-- `zero_y`. -/
def zero : BitVec 64 := word fmt neg 0 0

/-- `ovf_max`: the largest finite value. -/
def largest : BitVec 64 := word fmt neg (infExp fmt - 1) (2 ^ fracBits fmt - 1)

/-- `DEF_NAN`. -/
def defNan : BitVec 64 := word fmt false (infExp fmt) (2 ^ (fracBits fmt - 1) - 1)

/-- `w_ovf_inf`: the mode rounds an overflow to infinity. -/
def ovfInf (rm : RoundMode) : Bool :=
  match rm with
  | .nearest => true
  | .zero => false
  | .up => !neg
  | .down => neg

/-- The word of an operand's fields under a given sign. -/
theorem word_fields (b : BitVec 64) :
    word fmt neg (exp fmt b) (frac fmt b / lastBit fmt) =
      if fmt then BitVec.ofBool neg ++ b.extractLsb' 0 63
      else 0#32 ++ (BitVec.ofBool neg ++ b.extractLsb' 0 31) := by
  cases fmt with
  | true =>
    simp only [word, exp, frac, lastBit, if_true, Nat.div_one, BitVec.ofNat_toNat,
      BitVec.setWidth_eq]
    ext i hi
    simp only [BitVec.getElem_append, BitVec.getElem_extractLsb']
    split <;> split <;> grind
  | false =>
    have hdiv (n : ℕ) : n * 2 ^ 29 / 2 ^ 29 = n := Nat.mul_div_cancel n (by decide)
    simp only [word, exp, frac, lastBit, Bool.false_eq_true, if_false, hdiv, BitVec.ofNat_toNat,
      BitVec.setWidth_eq]
    ext i hi
    simp only [BitVec.getElem_append, BitVec.getElem_extractLsb']
    grind

/-- The fraction of a double. -/
theorem word_frac (neg : Bool) (e f : ℕ) :
    (word true neg e f).extractLsb' 0 52 = BitVec.ofNat 52 f := by
  simp only [word, if_true]
  ext i hi
  simp only [BitVec.getElem_extractLsb', Nat.zero_add, BitVec.getLsbD_append, hi, if_true,
    BitVec.getLsbD_eq_getElem hi]

/-- The exponent and the sign of a word. -/
theorem exp_word (fmt neg : Bool) {e : ℕ} (f : ℕ) (he : e ≤ infExp fmt) :
    exp fmt (word fmt neg e f) = e ∧ sgn fmt (word fmt neg e f) = neg := by
  cases fmt with
  | true =>
    have hx : (word true neg e f).extractLsb' 52 11 = BitVec.ofNat 11 e := by
      simp only [word, if_true]
      ext i hi
      simp only [BitVec.getElem_extractLsb', BitVec.getLsbD_append]
      grind
    have hs : (word true neg e f).getLsbD 63 = neg := by
      simp only [word, if_true, BitVec.getLsbD_append]
      simp
    simp only [exp, sgn, if_true, hx, hs, BitVec.toNat_ofNat]
    simp only [infExp, if_true] at he
    exact ⟨by omega, trivial⟩
  | false =>
    have hx : (word false neg e f).extractLsb' 23 8 = BitVec.ofNat 8 e := by
      simp only [word, Bool.false_eq_true, if_false]
      ext i hi
      simp only [BitVec.getElem_extractLsb', BitVec.getLsbD_append]
      grind
    have hs : (word false neg e f).getLsbD 31 = neg := by
      simp only [word, Bool.false_eq_true, if_false, BitVec.getLsbD_append]
      simp
    simp only [exp, sgn, Bool.false_eq_true, if_false, hx, hs, BitVec.toNat_ofNat]
    simp only [infExp, Bool.false_eq_true, if_false] at he
    exact ⟨by omega, trivial⟩

theorem append_self (a : BitVec 64) : BitVec.ofBool (a.getLsbD 63) ++ a.extractLsb' 0 63 = a := by
  refine BitVec.eq_of_getElem_eq (n := 1 + 63) fun i hi => ?_
  rw [BitVec.getElem_append]
  split
  · simpa using BitVec.getLsbD_eq_getElem hi
  · obtain rfl : i = 63 := by omega
    simp

/-- An operand from its fields. -/
theorem pass_self (a : BitVec 64) :
    (if fmt then a else 0#32 ++ a.extractLsb' 0 32) =
      if fmt then BitVec.ofBool (sgn fmt a) ++ a.extractLsb' 0 63
      else 0#32 ++ (BitVec.ofBool (sgn fmt a) ++ a.extractLsb' 0 31) := by
  cases fmt with
  | true => exact (append_self a).symm
  | false =>
    simp only [sgn, Bool.false_eq_true, if_false]
    ext i hi
    simp only [BitVec.getElem_append, BitVec.getElem_extractLsb']
    grind
end Words

/-- `fflags`: `{V, Z, O, U, I}`. -/
structure Fflags where
  v : Bool
  z : Bool
  o : Bool
  u : Bool
  i : Bool
  deriving DecidableEq, Repr

/-- The registers of the outputs: `y`, `denorm` and `fflags`. -/
structure Out where
  y : BitVec 64
  denorm : Bool
  fflags : Fflags

section Spec

variable {K : Type*} [Field K] [LinearOrder K] [IsStrictOrderedRing K]

/-- The magnitude of a normal number: the significand is scaled by `2 ^ 52` in both formats. -/
def mag (K : Type*) [Field K] (fmt : Bool) (a : BitVec 64) : K :=
  sig fmt a * 2 ^ ((exp fmt a : ℤ) - bias fmt - 52)

/-- The magnitude of a finite number, a denormal or zero included. -/
def absValue (K : Type*) [Field K] (fmt : Bool) (a : BitVec 64) : K :=
  if exp fmt a = 0 then frac fmt a * 2 ^ (1 - bias fmt - 52 : ℤ) else mag K fmt a

/-- A number from its sign and magnitude. -/
def signed (neg : Bool) (v : K) : K := if neg then -v else v

/-- The value of a normal number or a zero. -/
def value (K : Type*) [Field K] (fmt : Bool) (a : BitVec 64) : K :=
  signed (sgn fmt a) (if isZero fmt a then 0 else mag K fmt a)

/-- `x` rounded once to the precision of the format has biased exponent `e` and significand
`m`, whatever the exponent; `inexact` says that it is not `x`. -/
def RoundsTo (fmt : Bool) (rm : RoundMode) (neg : Bool) (x : K) (e : ℤ) (m : ℕ)
    (inexact : Bool) : Prop :=
  ∃ (u : ℤ) (r : ℕ), (2 : K) ^ fracBits fmt ≤ x / 2 ^ u ∧ x / 2 ^ u < 2 ^ (fracBits fmt + 1) ∧
    Rounds rm neg (x / 2 ^ u) r ∧ (inexact = true ↔ x / 2 ^ u ≠ r) ∧
    if r = 2 ^ (fracBits fmt + 1) then
      m = 2 ^ fracBits fmt ∧ e = u + fracBits fmt + bias fmt + 1
    else m = r ∧ e = u + fracBits fmt + bias fmt

/-- The word of a rounded number that is not below the normal range. -/
def encode (fmt : Bool) (rm : RoundMode) (neg : Bool) (e : ℤ) (m : ℕ) : BitVec 64 :=
  if (infExp fmt : ℤ) ≤ e then if ovfInf neg rm then infinity fmt neg else largest fmt neg
  else word fmt neg e.toNat (m - 2 ^ fracBits fmt)

/-- A result word with its overflow and inexact flags: `x` rounded once. -/
def Correct (fmt : Bool) (rm : RoundMode) (neg : Bool) (x : K) (y : BitVec 64) (fl : Fflags) :
    Prop :=
  ∃ (e : ℤ) (m : ℕ) (inexact : Bool), RoundsTo fmt rm neg x e m inexact ∧
    y = encode fmt rm neg e m ∧
    fl = ⟨false, false, decide ((infExp fmt : ℤ) ≤ e), false,
      inexact || decide ((infExp fmt : ℤ) ≤ e)⟩

/-- `x` rounded once has an exponent below the normal range. -/
def Tiny (fmt : Bool) (rm : RoundMode) (neg : Bool) (x : K) : Prop :=
  ∃ (e : ℤ) (m : ℕ) (inexact : Bool), RoundsTo fmt rm neg x e m inexact ∧ e ≤ 0

/-- A positive number lies in one binade. -/
theorem binade_unique {f : ℕ} {x : K} {u v : ℤ} (hu : (2 : K) ^ f ≤ x / 2 ^ u)
    (hv : x / 2 ^ v < 2 ^ (f + 1)) : u ≤ v := by
  by_contra h
  have hu0 : (0 : K) < 2 ^ u := zpow_pos two_pos u
  have hv0 : (0 : K) < 2 ^ v := zpow_pos two_pos v
  rw [le_div_iff₀ hu0] at hu
  rw [div_lt_iff₀ hv0] at hv
  have hle : (2 : K) ^ (v + 1) ≤ 2 ^ u := zpow_le_zpow_right₀ one_le_two (by omega)
  have hcarry : (2 : K) ^ (f + 1) * 2 ^ v = 2 ^ f * 2 ^ (v + 1) := by
    rw [pow_succ, zpow_add_one₀ two_ne_zero]
    ring
  have hlt : (2 : K) ^ (f + 1) * 2 ^ v ≤ x :=
    calc (2 : K) ^ (f + 1) * 2 ^ v = 2 ^ f * 2 ^ (v + 1) := hcarry
      _ ≤ 2 ^ f * 2 ^ u := mul_le_mul_of_nonneg_left hle (pow_nonneg zero_le_two f)
      _ ≤ x := hu
  exact absurd hv hlt.not_gt

/-- The rounded number is determined. -/
theorem RoundsTo.unique {fmt : Bool} {rm : RoundMode} {neg : Bool} {x : K} {e e' : ℤ} {m m' : ℕ}
    {i i' : Bool} (h : RoundsTo fmt rm neg x e m i) (h' : RoundsTo fmt rm neg x e' m' i') :
    e = e' ∧ m = m' ∧ i = i' := by
  obtain ⟨u, r, hl, hh, hr, hi, hm⟩ := h
  obtain ⟨u', r', hl', hh', hr', hi', hm'⟩ := h'
  obtain rfl : u = u' := le_antisymm (binade_unique hl hh') (binade_unique hl' hh)
  obtain rfl : r = r' := hr.unique hr'
  have hii : i = i' := by rw [Bool.eq_iff_iff, hi, hi']
  split at hm
  · rename_i hc
    rw [if_pos hc] at hm'
    exact ⟨hm.2.trans hm'.2.symm, hm.1.trans hm'.1.symm, hii⟩
  · rename_i hc
    rw [if_neg hc] at hm'
    exact ⟨hm.2.trans hm'.2.symm, hm.1.trans hm'.1.symm, hii⟩

end Spec

end R9999.Fpu
