import R9999.Fpu.Round
import R9999.Hw.Clz

/-!
# The conversions

`fpu_i2f.sv`, `fpu_f2i.sv` and `fpu_f2f.sv`: from an integer to a number of a format, back, and
from one format to the other.  Each aligns its operand in its own way and rounds at one place.
-/

open Hw (RoundMode countLeadingZeros)

namespace R9999.Fpu

/-! ## From an integer -/

section I2f

variable (srcLong fmt : Bool) (rm : RoundMode) (x : BitVec 64)

/-- `sign`. -/
def i2fSign : Bool := if srcLong then x.getLsbD 63 else x.getLsbD 31

/-- `mag`, by `neg_l` and `neg_w`. -/
def i2fMag : BitVec 64 :=
  if srcLong then if x.getLsbD 63 then ~~~x + 1 else x
  else if x.getLsbD 31 then (~~~(x.setWidth 32) + 1).setWidth 64 else (x.setWidth 32).setWidth 64

/-- `ffs`: the place of the leading one, in seven bits. -/
def i2fFfs : ℕ := (63 + 128 - countLeadingZeros 4 (i2fMag srcLong x).toNat) % 128

/-- `shifted`: the leading one leaves the word. -/
def i2fShifted : ℕ :=
  (i2fMag srcLong x).toNat * 2 ^ ((64 + 128 - i2fFfs srcLong x) % 128) % 2 ^ 64

/-- `w_g`. -/
def i2fGuard : Bool :=
  if fmt then (i2fShifted srcLong x).testBit 11 else (i2fShifted srcLong x).testBit 40

/-- `w_s`. -/
def i2fSticky : Bool :=
  if fmt then i2fShifted srcLong x % 2 ^ 11 != 0 else i2fShifted srcLong x % 2 ^ 40 != 0

/-- `w_lsb`. -/
def i2fLsb : Bool :=
  if fmt then (i2fShifted srcLong x).testBit 12 else (i2fShifted srcLong x).testBit 41

/-- `frac_rnd`. -/
def i2fFracRnd : ℕ :=
  (if fmt then i2fShifted srcLong x / 2 ^ 12 else i2fShifted srcLong x / 2 ^ 41) +
    (Hw.roundUp rm (i2fSign srcLong x) (i2fLsb srcLong fmt x) (i2fGuard srcLong fmt x)
      (i2fSticky srcLong fmt x)).toNat

/-- `w_carry`: out of the fraction of the format. -/
def i2fCarry : Bool :=
  if fmt then (i2fFracRnd srcLong fmt rm x).testBit 52
  else (i2fFracRnd srcLong fmt rm x).testBit 23

/-- `fpu_i2f`, which has no `denorm`. -/
def i2f : Out :=
  { y :=
      if i2fMag srcLong x = 0 then 0
      else word fmt (i2fSign srcLong x)
        (bias fmt + i2fFfs srcLong x + (i2fCarry srcLong fmt rm x).toNat)
        (i2fFracRnd srcLong fmt rm x)
    denorm := false
    fflags := ⟨false, false, false, false,
      i2fMag srcLong x != 0 && (i2fGuard srcLong fmt x || i2fSticky srcLong fmt x)⟩ }

end I2f

/-! ## To an integer -/

section F2i

variable (fmt dstLong : Bool) (rm : RoundMode) (a : BitVec 64)

/-- `E1`. -/
def f2iE1 : ℤ := (exp fmt a : ℤ) - bias fmt + 1

/-- `tiny`: the magnitude is below one half. -/
def f2iTiny : Bool := f2iE1 fmt a < 0

/-- `huge`. -/
def f2iHuge : Bool := 64 < f2iE1 fmt a

/-- `sh`. -/
def f2iSh : ℕ := if f2iTiny fmt a then 0 else if f2iHuge fmt a then 64 else (f2iE1 fmt a).toNat

/-- `fixed`, the integer part above bit 53. -/
def f2iFixed : ℕ := sig fmt a * 2 ^ f2iSh fmt a % 2 ^ 117

/-- `w_intmag`. -/
def f2iIntmag : ℕ := if f2iTiny fmt a then 0 else f2iFixed fmt a / 2 ^ 53

/-- `w_guard`. -/
def f2iGuard : Bool := if f2iTiny fmt a then false else (f2iFixed fmt a).testBit 52

/-- `w_sticky`. -/
def f2iSticky : Bool := if f2iTiny fmt a then !isZero fmt a else f2iFixed fmt a % 2 ^ 52 != 0

/-- `mag_rnd`. -/
def f2iMagRnd : ℕ :=
  f2iIntmag fmt a +
    (Hw.roundUp rm (sgn fmt a) ((f2iIntmag fmt a).testBit 0) (f2iGuard fmt a)
      (f2iSticky fmt a)).toNat

/-- `lim_pos`. -/
def limPos : ℕ := if dstLong then 0x7fffffffffffffff else 0x7fffffff

/-- `lim_neg`. -/
def limNeg : ℕ := if dstLong then 0x8000000000000000 else 0x80000000

/-- `w_overflow`, after the rounding. -/
def f2iOverflow : Bool :=
  isNan fmt a || isInf fmt a || f2iHuge fmt a ||
    if sgn fmt a then limNeg dstLong < f2iMagRnd fmt rm a
    else limPos dstLong < f2iMagRnd fmt rm a

/-- `signed_res`. -/
def f2iSigned : BitVec 64 :=
  let mag := BitVec.ofNat 64 (f2iMagRnd fmt rm a)
  if sgn fmt a then ~~~mag + 1 else mag

/-- `fpu_f2i`, which has no `denorm`. -/
def f2i : Out :=
  { y :=
      if f2iOverflow fmt dstLong rm a then 0
      else if dstLong then f2iSigned fmt rm a
      else ((f2iSigned fmt rm a).setWidth 32).setWidth 64
    denorm := false
    fflags := ⟨f2iOverflow fmt dstLong rm a, false, false, false,
      !f2iOverflow fmt dstLong rm a && (f2iGuard fmt a || f2iSticky fmt a)⟩ }

end F2i

/-! ## Between the formats -/

section F2f

variable (rm : RoundMode) (a : BitVec 64)

/-- `wide_y`. -/
def wideY : BitVec 64 :=
  if isNan false a then defNan true
  else if isInf false a then infinity true (sgn false a)
  else if isZero false a then zero true (sgn false a)
  else word true (sgn false a) (exp false a + 896) (frac false a)

/-- `n_g`, `n_s` and `n_lsb` in `n_round_up`. -/
def narrowUp : Bool :=
  Hw.roundUp rm (sgn true a) ((frac true a).testBit 29) ((frac true a).testBit 28)
    (frac true a % 2 ^ 28 != 0)

/-- `n_inexact`. -/
def narrowInexact : Bool := (frac true a).testBit 28 || frac true a % 2 ^ 28 != 0

/-- `n_frac_rnd`. -/
def narrowFracRnd : ℕ := frac true a / 2 ^ 29 + (narrowUp rm a).toNat

/-- `n_e_f`: the exponent of a single, after the rounding carry. -/
def narrowE : ℤ := (exp true a : ℤ) - 896 + ((narrowFracRnd rm a).testBit 23).toNat

/-- `n_overflow`. -/
def narrowOverflow : Bool := 255 ≤ narrowE rm a

/-- `n_underflow`. -/
def narrowUnderflow : Bool := narrowE rm a ≤ 0

/-- `narrow_y32`. -/
def narrowY : BitVec 64 :=
  if isNan true a then defNan false
  else if isInf true a then infinity false (sgn true a)
  else if isZero true a then zero false (sgn true a)
  else if narrowOverflow rm a then
    if ovfInf (sgn true a) rm then infinity false (sgn true a) else largest false (sgn true a)
  else word false (sgn true a) (narrowE rm a % 2 ^ 8).toNat (narrowFracRnd rm a)

/-- `n_is_special`. -/
def narrowSpecial : Bool := isNan true a || isInf true a || isZero true a

/-- `fpu_f2f`. -/
def f2f (toDouble : Bool) : Out :=
  { y := if toDouble then wideY a else narrowY rm a
    denorm :=
      if toDouble then isDenorm false a
      else isDenorm true a || (!narrowSpecial a && narrowUnderflow rm a)
    fflags := ⟨if toDouble then isSnan false a else isSnan true a, false,
      !toDouble && !narrowSpecial a && narrowOverflow rm a, false,
      if toDouble then false
      else !narrowSpecial a && !narrowUnderflow rm a &&
        (narrowInexact a || narrowOverflow rm a)⟩ }

end F2f

end R9999.Fpu
