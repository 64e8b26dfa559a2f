import R9999.Fpu.Convert

/-!
# What the conversions compute

The conversions that round to a format hand the rounding stage a significand, as the arithmetic
units do; they keep only the fraction and let its carry run into the exponent, which is the same
(`fracRnd_carry`, `fracRnd_word`).  The conversion to an integer rounds at the binary point.
-/

open Hw (RoundMode Rounds Tail countLeadingZeros)

namespace R9999.Fpu

/-! ## A rounder that keeps the fraction -/

section FracRnd

variable {fmt : Bool} {q : Sig} (rm : RoundMode) (neg : Bool)

/-- The fraction that such a rounder has. -/
def fracRnd (fmt : Bool) (rm : RoundMode) (neg : Bool) (q : Sig) : ℕ :=
  q.sig / lastBit fmt - 2 ^ fracBits fmt + (q.roundUp fmt rm neg).toNat

/-- The fields of a word, as far as they are kept. -/
theorem word_congr {e e' f f' : ℕ} (he : e % (infExp fmt + 1) = e' % (infExp fmt + 1))
    (hf : f % 2 ^ fracBits fmt = f' % 2 ^ fracBits fmt) : word fmt neg e f = word fmt neg e' f' := by
  cases fmt with
  | true =>
    have h1 : BitVec.ofNat 11 e = BitVec.ofNat 11 e' := BitVec.eq_of_toNat_eq he
    have h2 : BitVec.ofNat 52 f = BitVec.ofNat 52 f' := BitVec.eq_of_toNat_eq hf
    simp only [word, h1, h2, if_true]
  | false =>
    have h1 : BitVec.ofNat 8 e = BitVec.ofNat 8 e' := BitVec.eq_of_toNat_eq he
    have h2 : BitVec.ofNat 23 f = BitVec.ofNat 23 f' := BitVec.eq_of_toNat_eq hf
    simp only [word, h1, h2, Bool.false_eq_true, if_false]

theorem fracRnd_eq (hl : 2 ^ 52 ≤ q.sig) :
    2 ^ fracBits fmt + fracRnd fmt rm neg q = q.sumR fmt rm neg / lastBit fmt := by
  have hlow : 2 ^ fracBits fmt ≤ q.sig / lastBit fmt := by
    rw [Nat.le_div_iff_mul_le (lastBit_pos fmt), Nat.mul_comm, lastBit_mul]
    exact hl
  rw [Sig.sumR_div, fracRnd]
  omega

theorem fracRnd_le (hh : q.sig < 2 ^ 53) : fracRnd fmt rm neg q ≤ 2 ^ fracBits fmt := by
  have hhigh : q.sig / lastBit fmt < 2 ^ (fracBits fmt + 1) := by
    rw [Nat.div_lt_iff_lt_mul (lastBit_pos fmt), pow_succ, Nat.mul_right_comm,
      Nat.mul_comm _ (lastBit fmt), lastBit_mul]
    exact hh
  have hup := Bool.toNat_le (q.roundUp fmt rm neg)
  have hpos := Nat.two_pow_pos (fracBits fmt)
  rw [pow_succ] at hhigh
  rw [fracRnd]
  omega

/-- The carry out of the fraction is that of the significand. -/
theorem fracRnd_carry (hl : 2 ^ 52 ≤ q.sig) (hh : q.sig < 2 ^ 53) :
    (fracRnd fmt rm neg q).testBit (fracBits fmt) = q.carry fmt rm neg := by
  have hle : fracRnd fmt rm neg q ≤ 2 ^ fracBits fmt := fracRnd_le rm neg hh
  have heq : 2 ^ fracBits fmt + fracRnd fmt rm neg q = q.sumR fmt rm neg / lastBit fmt :=
    fracRnd_eq rm neg hl
  have hpos := Nat.two_pow_pos (fracBits fmt)
  rw [Bool.eq_iff_iff, q.carry_iff rm neg hh, ← heq, Nat.testBit_eq_decide_div_mod_eq,
    decide_eq_true_eq, pow_succ]
  constructor
  · intro hbit
    by_contra hlt
    rw [Nat.div_eq_of_lt (by omega)] at hbit
    exact absurd hbit (by decide)
  · intro hge
    have hfull : fracRnd fmt rm neg q = 2 ^ fracBits fmt := by omega
    rw [hfull, Nat.div_self hpos]

/-- The fraction is that of the significand. -/
theorem fracRnd_mod (hl : 2 ^ 52 ≤ q.sig) (hh : q.sig < 2 ^ 53) :
    fracRnd fmt rm neg q % 2 ^ fracBits fmt =
      (q.finalSig fmt rm neg % 2 ^ 52 / lastBit fmt) % 2 ^ fracBits fmt := by
  have hle : fracRnd fmt rm neg q ≤ 2 ^ fracBits fmt := fracRnd_le rm neg hh
  have heq : 2 ^ fracBits fmt + fracRnd fmt rm neg q = q.sumR fmt rm neg / lastBit fmt :=
    fracRnd_eq rm neg hl
  have hcarry : (fracRnd fmt rm neg q).testBit (fracBits fmt) = q.carry fmt rm neg :=
    fracRnd_carry rm neg hl hh
  have hb : 2 ^ 52 ≤ q.finalSig fmt rm neg ∧ q.finalSig fmt rm neg < 2 ^ 53 :=
    q.finalSig_bounds rm neg hl hh
  have hmod : q.finalSig fmt rm neg % 2 ^ 52 / lastBit fmt =
      q.finalSig fmt rm neg / lastBit fmt - 2 ^ fracBits fmt := by
    rw [Nat.mod_eq_sub_mod hb.1, Nat.mod_eq_of_lt (by omega), ← lastBit_mul fmt,
      Nat.sub_mul_div]
  rw [hmod]
  have hfin : q.finalSig fmt rm neg / lastBit fmt =
      if q.carry fmt rm neg then q.sumR fmt rm neg / lastBit fmt / 2
      else q.sumR fmt rm neg / lastBit fmt := by
    rw [Sig.finalSig]
    cases hc : q.carry fmt rm neg with
    | true => rw [if_pos rfl, if_pos rfl, Nat.div_div_eq_div_mul, Nat.div_div_eq_div_mul, Nat.mul_comm]
    | false =>
      have hlt : q.sumR fmt rm neg < 2 ^ 53 := by
        by_contra hge
        have hpow : 2 ^ (fracBits fmt + 1) * lastBit fmt = 2 ^ 53 := by cases fmt <;> rfl
        have hc' := (q.carry_iff rm neg hh).2
          ((Nat.le_div_iff_mul_le (lastBit_pos fmt)).2 (hpow.le.trans (not_lt.1 hge)))
        rw [hc] at hc'
        exact Bool.false_ne_true hc'
      rw [if_neg Bool.false_ne_true, if_neg Bool.false_ne_true, Nat.mod_eq_of_lt hlt]
  rw [hfin, ← heq]
  cases hc : q.carry fmt rm neg with
  | true =>
    have hge := (q.carry_iff rm neg hh).1 hc
    rw [← heq, pow_succ] at hge
    have hfull : fracRnd fmt rm neg q = 2 ^ fracBits fmt := by omega
    rw [hfull, if_pos rfl, Nat.mod_self, ← Nat.mul_two, Nat.mul_div_cancel _ (by decide),
      Nat.sub_self, Nat.zero_mod]
  | false => rw [if_neg Bool.false_ne_true, Nat.add_sub_cancel_left]

/-- **The packed result** of such a rounder. -/
theorem fracRnd_packed {e : ℤ} (hl : 2 ^ 52 ≤ q.sig) (hh : q.sig < 2 ^ 53) {n : ℕ}
    (hn : (q.expReal fmt rm neg e - n) % (infExp fmt + 1) = 0) :
    q.normY fmt rm neg e = word fmt neg n (fracRnd fmt rm neg q) := by
  rw [Sig.normY]
  refine (word_congr neg ?_ (fracRnd_mod rm neg hl hh)).symm
  cases fmt with
  | true =>
    simp only [infExp, if_true] at hn ⊢
    omega
  | false =>
    simp only [infExp, Bool.false_eq_true, if_false] at hn ⊢
    omega

end FracRnd

/-! ## From an integer -/

section I2f

variable {srcLong fmt : Bool} {rm : RoundMode} {x : BitVec 64}

/-- The integer in a register. -/
def intVal (long : Bool) (x : BitVec 64) : ℤ := if long then x.toInt else (x.setWidth 32).toInt

/-- The sign and the magnitude of a word. -/
theorem natAbs_toInt {w : ℕ} (v : BitVec w) :
    (v.msb = true ↔ v.toInt < 0) ∧ (if v.msb then ~~~v + 1 else v).toNat = v.toInt.natAbs := by
  refine ⟨by rw [BitVec.msb_eq_toInt, decide_eq_true_eq], ?_⟩
  have hlt := v.isLt
  rw [BitVec.toInt_eq_msb_cond]
  cases hm : v.msb with
  | false => simp
  | true =>
    have hpos : 0 < v.toNat := by
      rw [BitVec.msb_eq_decide, decide_eq_true_eq] at hm
      exact (Nat.two_pow_pos _).trans_le hm
    have hneg : ~~~v + 1 = -v := (BitVec.neg_eq_not_add v).symm
    rw [if_pos rfl, if_pos rfl, hneg, BitVec.toNat_neg, Nat.mod_eq_of_lt (by omega)]
    omega

theorem i2fMag_eq (srcLong : Bool) (x : BitVec 64) :
    (i2fSign srcLong x = true ↔ intVal srcLong x < 0) ∧
      (i2fMag srcLong x).toNat = (intVal srcLong x).natAbs := by
  cases srcLong with
  | true =>
    have h := natAbs_toInt x
    rw [BitVec.msb_eq_getLsbD_last] at h
    simpa [i2fSign, i2fMag, intVal] using h
  | false =>
    have h := natAbs_toInt (x.setWidth 32)
    have hm : (x.setWidth 32).msb = x.getLsbD 31 := by simp [BitVec.msb_eq_getLsbD_last]
    rw [hm] at h
    simp only [i2fSign, i2fMag, intVal, Bool.false_eq_true, if_false]
    refine ⟨h.1, ?_⟩
    rw [← h.2]
    cases x.getLsbD 31 <;>
      · simp only [Bool.false_eq_true, if_true, if_false]
        exact BitVec.toNat_setWidth_of_le (by decide)

/-- The leading one of the magnitude is shifted to bit 64. -/
theorem i2f_place (h : i2fMag srcLong x ≠ 0) :
    let m := (i2fMag srcLong x).toNat
    let f := i2fFfs srcLong x
    f ≤ 63 ∧ 2 ^ 64 ≤ m * 2 ^ (64 - f) ∧ m * 2 ^ (64 - f) < 2 ^ 65 ∧
      i2fShifted srcLong x = m * 2 ^ (64 - f) - 2 ^ 64 := by
  intro m f
  have hm : m ≠ 0 := fun hz => h (BitVec.eq_of_toNat_eq hz)
  have hsize := Hw.countLeadingZeros_add_size 4 m (i2fMag srcLong x).isLt
  have hpos : 0 < m.size := Nat.size_pos.2 (Nat.pos_of_ne_zero hm)
  have hf : f = m.size - 1 := by
    show (63 + 128 - countLeadingZeros 4 m) % 128 = _
    omega
  have hle : f ≤ 63 := by omega
  have hlow : 2 ^ f ≤ m := Nat.lt_size.1 (by omega)
  have hhigh : m < 2 ^ (f + 1) := by
    rw [hf, Nat.sub_add_cancel hpos]
    exact Nat.lt_size_self m
  have hsh : (64 + 128 - f) % 128 = 64 - f := by omega
  have h64 : 2 ^ f * 2 ^ (64 - f) = 2 ^ 64 := by
    rw [← pow_add]
    congr 1
    omega
  have h65 : 2 ^ (f + 1) * 2 ^ (64 - f) = 2 ^ 65 := by
    rw [pow_succ, Nat.mul_right_comm, h64]
    norm_num
  have hge : 2 ^ 64 ≤ m * 2 ^ (64 - f) := h64 ▸ Nat.mul_le_mul_right _ hlow
  have hlt : m * 2 ^ (64 - f) < 2 ^ 65 :=
    h65 ▸ (Nat.mul_lt_mul_right (Nat.two_pow_pos _)).2 hhigh
  refine ⟨hle, hge, hlt, ?_⟩
  show m * 2 ^ ((64 + 128 - f) % 128) % 2 ^ 64 = _
  rw [hsh]
  omega

/-- The significand that the shifted magnitude is. -/
def i2fSig (p : ℕ) : Sig := ⟨p / 2 ^ 12, p.testBit 11, p.testBit 10, p % 2 ^ 10 != 0⟩

/-- The bits that are cut off are those of the rounding stage. -/
theorem i2fSig_bits (fmt : Bool) (rm : RoundMode) {p : ℕ} (hl : 2 ^ 64 ≤ p) (hh : p < 2 ^ 65)
    (hs : i2fShifted srcLong x = p - 2 ^ 64) :
    i2fGuard srcLong fmt x = (i2fSig p).wG fmt ∧
      i2fSticky srcLong fmt x = ((i2fSig p).wR fmt || (i2fSig p).wS fmt) ∧
      i2fFracRnd srcLong fmt rm x = fracRnd fmt rm (i2fSign srcLong x) (i2fSig p) := by
  have hg : i2fGuard srcLong fmt x = (i2fSig p).wG fmt := by
    simp only [i2fGuard, hs, i2fSig, Sig.wG, Nat.testBit_eq_decide_div_mod_eq]
    cases fmt <;> simp only [Bool.false_eq_true, if_true, if_false, decide_eq_decide] <;> omega
  have ht : i2fSticky srcLong fmt x = ((i2fSig p).wR fmt || (i2fSig p).wS fmt) := by
    simp only [i2fSticky, hs, i2fSig, Sig.wR, Sig.wS, Nat.testBit_eq_decide_div_mod_eq]
    rw [Bool.eq_iff_iff]
    cases fmt <;>
      simp only [Bool.false_eq_true, if_true, if_false, Bool.or_eq_true, bne_iff_ne,
        decide_eq_true_eq] <;> omega
  have hlsb : i2fLsb srcLong fmt x = decide ((i2fSig p).sig / lastBit fmt % 2 = 1) := by
    simp only [i2fLsb, hs, i2fSig, lastBit, Nat.testBit_eq_decide_div_mod_eq]
    cases fmt <;> simp only [Bool.false_eq_true, if_true, if_false, decide_eq_decide] <;> omega
  refine ⟨hg, ht, ?_⟩
  rw [i2fFracRnd, fracRnd, Sig.roundUp_eq, hg, ht, hlsb, hs]
  congr 1
  cases fmt <;> simp only [i2fSig, lastBit, fracBits, Bool.false_eq_true, if_true, if_false] <;>
    omega

/-- The rounding stage is handed the magnitude. -/
theorem i2fSig_norm (fmt : Bool) {m f : ℕ} (hf : f ≤ 63) (hl : 2 ^ 64 ≤ m * 2 ^ (64 - f))
    (hh : m * 2 ^ (64 - f) < 2 ^ 65) :
    Norm fmt (i2fSig (m * 2 ^ (64 - f))) (bias fmt + f : ℕ) (m : ℚ) := by
  have hval : ((m * 2 ^ (64 - f) : ℕ) + 0 : ℚ) * 2 ^ ((f : ℤ) - 64) = m := by
    have hexp : ((64 - f : ℕ) : ℤ) + ((f : ℤ) - 64) = 0 := by omega
    rw [add_zero, Nat.cast_mul, Nat.cast_pow, Nat.cast_ofNat, mul_assoc, ← zpow_natCast,
      ← zpow_add₀ two_ne_zero, hexp, zpow_zero, mul_one]
  have hs (p : ℕ) : (p % 2 ^ 10 != 0) = true ↔ p % 2 ^ 10 ≠ 0 ∨ (0 : ℚ) ≠ 0 := by
    simp [bne_iff_ne]
  rw [← hval]
  exact Norm.of_testBit (k := 10) le_rfl one_pos (hs _) hl hh (by push_cast; ring)

/-- Zero becomes zero; any other integer is rounded once. -/
theorem i2f_rounds (srcLong fmt : Bool) (rm : RoundMode) (x : BitVec 64) :
    let o := i2f srcLong fmt rm x
    if intVal srcLong x = 0 then o.y = zero fmt false ∧ o.fflags = ⟨false, false, false, false, false⟩
    else Correct fmt rm (decide (intVal srcLong x < 0)) ((intVal srcLong x).natAbs : ℚ) o.y
      o.fflags ∧ ¬ Tiny fmt rm (decide (intVal srcLong x < 0)) ((intVal srcLong x).natAbs : ℚ) := by
  intro o
  obtain ⟨hsign, hmag⟩ := i2fMag_eq srcLong x
  have hneg : i2fSign srcLong x = decide (intVal srcLong x < 0) := by
    rw [Bool.eq_iff_iff, hsign, decide_eq_true_eq]
  by_cases hz : i2fMag srcLong x = 0
  · have hv : intVal srcLong x = 0 := by
      rw [hz] at hmag
      exact Int.natAbs_eq_zero.1 hmag.symm
    have hzero : zero fmt false = 0#64 := by cases fmt <;> decide
    rw [if_pos hv, hzero]
    simp [o, i2f, hz]
  · have hv : intVal srcLong x ≠ 0 := by
      intro hv
      rw [hv] at hmag
      exact hz (BitVec.eq_of_toNat_eq hmag)
    obtain ⟨hf, hl, hh, hs⟩ := i2f_place hz
    set m := (i2fMag srcLong x).toNat
    set f := i2fFfs srcLong x
    obtain ⟨hg, ht, hfr⟩ := i2fSig_bits fmt rm hl hh hs
    have hn := i2fSig_norm fmt hf hl hh
    set q := i2fSig (m * 2 ^ (64 - f))
    have hcarry : i2fCarry srcLong fmt rm x = q.carry fmt rm (i2fSign srcLong x) := by
      rw [← fracRnd_carry rm (i2fSign srcLong x) hn.low hn.high, ← hfr]
      cases fmt <;> rfl
    have hin : q.inexact fmt = (i2fGuard srcLong fmt x || i2fSticky srcLong fmt x) := by
      rw [Sig.inexact, hg, ht, Bool.or_assoc]
    have hexp : q.expReal fmt rm (i2fSign srcLong x) (bias fmt + f : ℕ) =
        (bias fmt + f + (i2fCarry srcLong fmt rm x).toNat : ℕ) := by
      rw [Sig.expReal, hcarry]
      push_cast
      ring
    have hc := Bool.toNat_le (i2fCarry srcLong fmt rm x)
    have hbias : 0 < bias fmt ∧ bias fmt + 64 < infExp fmt := by cases fmt <;> decide
    have hu : q.underflow fmt rm (i2fSign srcLong x) (bias fmt + f : ℕ) = false := by
      rw [Sig.underflow, hexp, decide_eq_false_iff_not]
      omega
    have ho : q.overflow fmt rm (i2fSign srcLong x) (bias fmt + f : ℕ) = false := by
      rw [Sig.overflow, hexp, decide_eq_false_iff_not]
      omega
    have hword : q.packed fmt rm (i2fSign srcLong x) (bias fmt + f : ℕ) = o.y := by
      rw [Sig.packed, ho, if_neg Bool.false_ne_true,
        fracRnd_packed rm (i2fSign srcLong x) hn.low hn.high
          (n := bias fmt + f + (i2fCarry srcLong fmt rm x).toNat) (by rw [hexp, sub_self]; rfl),
        ← hfr]
      exact (if_neg hz).symm
    have hfl : o.fflags = ⟨false, false, false, false, q.inexact fmt || false⟩ := by
      have hne : (i2fMag srcLong x != 0) = true := bne_iff_ne.2 hz
      simp only [o, i2f, hne, Bool.true_and, hin, Bool.or_false]
    have hcorrect := hn.correct rm (i2fSign srcLong x) hu
    rw [if_neg hv, ← hneg, ← hmag, hfl, ← hword, ← hn.underflow_iff, hu]
    rw [ho] at hcorrect
    exact ⟨hcorrect, Bool.false_ne_true⟩

end I2f

/-! ## Numbers that need no rounding -/

section Exact

variable {fmt : Bool} {rm : RoundMode} {neg : Bool} {x : ℚ} {e : ℤ} {m : ℕ} {i : Bool}

/-- The fraction of a word. -/
theorem frac_word (fmt neg : Bool) (e : ℕ) {f : ℕ} (hf : f < 2 ^ fracBits fmt) :
    frac fmt (word fmt neg e f) = f * lastBit fmt := by
  cases fmt with
  | true =>
    simp only [frac, lastBit, if_true, word_frac, BitVec.toNat_ofNat, Nat.mul_one]
    exact Nat.mod_eq_of_lt hf
  | false =>
    have hx : (word false neg e f).extractLsb' 0 23 = BitVec.ofNat 23 f := by
      simp only [word, Bool.false_eq_true, if_false]
      ext i hi
      simp only [BitVec.getElem_extractLsb', Nat.zero_add, BitVec.getLsbD_append]
      grind
    simp only [frac, lastBit, Bool.false_eq_true, if_false, hx, BitVec.toNat_ofNat]
    rw [Nat.mod_eq_of_lt (show f < 2 ^ 23 from hf)]

/-- A number that is its own rounding is that of the word. -/
theorem RoundsTo.exact (h : RoundsTo fmt rm neg x e m false) (h0 : 0 < e) (h1 : e < infExp fmt) :
    Normal fmt (encode fmt rm neg e m) ∧ sgn fmt (encode fmt rm neg e m) = neg ∧
      mag ℚ fmt (encode fmt rm neg e m) = x := by
  obtain ⟨u, r, hl, hh, -, hi, hm⟩ := h
  have hr : x / 2 ^ u = r := by
    by_contra hne
    exact Bool.false_ne_true (hi.2 hne)
  rw [hr] at hl hh
  have hl' : 2 ^ fracBits fmt ≤ r := by exact_mod_cast hl
  have hh' : r < 2 ^ (fracBits fmt + 1) := by exact_mod_cast hh
  rw [if_neg hh'.ne] at hm
  obtain ⟨rfl, rfl⟩ := hm
  rw [pow_succ] at hh'
  obtain ⟨hexp, hsgn⟩ := exp_word fmt neg (e := (u + fracBits fmt + bias fmt).toNat)
    (m - 2 ^ fracBits fmt) (by omega)
  have hfrac := frac_word fmt neg (u + fracBits fmt + bias fmt).toNat
    (show m - 2 ^ fracBits fmt < 2 ^ fracBits fmt by omega)
  rw [encode, if_neg (not_le.2 h1)]
  refine ⟨?_, hsgn, ?_⟩
  · rw [Normal, hexp]
    omega
  · have hsig : sig fmt (word fmt neg (u + fracBits fmt + bias fmt).toNat (m - 2 ^ fracBits fmt)) =
        m * lastBit fmt := by
      rw [sig, hfrac, Nat.sub_mul, Nat.mul_comm (2 ^ fracBits fmt), lastBit_mul]
      have := Nat.mul_le_mul_left (lastBit fmt) hl'
      rw [lastBit_mul, Nat.mul_comm] at this
      omega
    have hlast : (lastBit fmt : ℚ) = 2 ^ (52 - fracBits fmt : ℤ) := by
      cases fmt <;> norm_num [lastBit, fracBits]
    have hx : x = m * 2 ^ u := by
      rw [← hr, div_mul_cancel₀ _ (zpow_ne_zero u two_ne_zero)]
    rw [mag, hsig, hexp, Nat.cast_mul, hlast, hx, mul_assoc, ← zpow_add₀ two_ne_zero]
    congr 2
    omega

/-- **Inexact** is raised for the numbers that the format does not have. -/
theorem Correct.inexact_iff {y : BitVec 64} {fl : Fflags} (h : Correct fmt rm neg x y fl)
    (ht : ¬ Tiny fmt rm neg x) :
    fl.i = true ↔ ¬ ∃ b, Normal fmt b ∧ mag ℚ fmt b = x := by
  obtain ⟨e, m, i, hr, rfl, rfl⟩ := h
  have h0 : 0 < e := by
    by_contra he
    exact ht ⟨e, m, i, hr, not_lt.1 he⟩
  constructor
  · rintro hi ⟨b, hb, rfl⟩
    obtain ⟨e', m', i', hr', -, hfl⟩ := correct_self (K := ℚ) hb rm neg
    obtain ⟨rfl, -, rfl⟩ := hr.unique hr'
    have hi' : (i || decide ((infExp fmt : ℤ) ≤ e)) = false := (congrArg Fflags.i hfl).symm
    exact Bool.false_ne_true (hi'.symm.trans hi)
  · intro hex
    by_contra hi
    obtain ⟨rfl, he⟩ := Bool.or_eq_false_iff.1 (eq_false_of_ne_true hi)
    obtain ⟨hn, -, hv⟩ := hr.exact h0 (not_le.1 (of_decide_eq_false he))
    exact hex ⟨_, hn, hv⟩

/-- The rounding of an integer is the integer. -/
theorem rounds_nat (rm : RoundMode) (neg : Bool) (n : ℕ) : Rounds rm neg (n : ℚ) n := by
  have h := Tail.rounds (Tail.zero (K := ℚ)) rm neg n
  have hup : Hw.roundUp rm neg (decide (n % 2 = 1)) false false = false := by
    cases rm <;> simp [Hw.roundUp]
  rwa [hup, add_zero] at h

/-- The integers of fewer bits than a double has are doubles. -/
theorem RoundsTo.of_nat {n : ℕ} (hn : n < 2 ^ 52) (h : RoundsTo true rm neg (n : ℚ) e m i) :
    i = false ∧ 0 < e ∧ e < infExp true := by
  obtain ⟨u, r, hl, hh, hr, hi, hm⟩ := h
  have hu : 0 < (2 : ℚ) ^ u := zpow_pos two_pos u
  simp only [fracBits, if_true] at hl hh hm
  rw [le_div_iff₀ hu] at hl
  rw [div_lt_iff₀ hu] at hh
  have hu0 : u < 0 := by
    by_contra hge
    have h1 : (1 : ℚ) ≤ 2 ^ u := one_le_zpow₀ one_le_two (not_lt.1 hge)
    have h2 : (n : ℚ) < 2 ^ 52 := by exact_mod_cast hn
    nlinarith
  have hpos : 0 < n := by
    rcases Nat.eq_zero_or_pos n with rfl | hpos
    · have h52 : (0 : ℚ) < 2 ^ 52 * 2 ^ u := by positivity
      rw [Nat.cast_zero] at hl
      exact absurd hl (not_le.2 h52)
    · exact hpos
  have hu53 : -53 < u := by
    by_contra hle
    have h1 : (2 : ℚ) ^ u ≤ 2 ^ (-53 : ℤ) := zpow_le_zpow_right₀ one_le_two (by omega)
    have h2 : (1 : ℚ) ≤ n := by exact_mod_cast hpos
    have h3 : (2 : ℚ) ^ (52 + 1) * 2 ^ (-53 : ℤ) = 1 := by norm_num
    have h4 : (2 : ℚ) ^ (52 + 1) * 2 ^ u ≤ 2 ^ (52 + 1) * 2 ^ (-53 : ℤ) :=
      mul_le_mul_of_nonneg_left h1 (by positivity)
    linarith
  have hnat : (n : ℚ) / 2 ^ u = (n * 2 ^ (-u).toNat : ℕ) := by
    have hneg : ((-u).toNat : ℤ) = -u := Int.toNat_of_nonneg (by omega)
    rw [Nat.cast_mul, Nat.cast_pow, Nat.cast_ofNat, ← zpow_natCast, hneg, zpow_neg, div_eq_mul_inv]
  have hrn : r = n * 2 ^ (-u).toNat := by
    rw [hnat] at hr
    exact hr.unique (rounds_nat rm neg _)
  have hie : i = false := by
    refine eq_false_of_ne_true fun ht => hi.1 ht ?_
    rw [hnat, hrn]
  have hinf : infExp true = 2047 ∧ bias true = 1023 := ⟨rfl, rfl⟩
  refine ⟨hie, ?_⟩
  split at hm <;> omega

end Exact

/-! ## To an integer -/

section F2i

variable {fmt dstLong : Bool} {rm : RoundMode} {a : BitVec 64}

/-- A number that is neither an infinity nor a NaN. -/
theorem finite_iff : (isNan fmt a || isInf fmt a) = false ↔ exp fmt a < infExp fmt := by
  have hle := exp_le fmt a
  simp only [isNan, isInf, Bool.or_eq_false_iff, Bool.and_eq_false_iff, beq_eq_false_iff_ne,
    bne_eq_false_iff_eq, ne_eq]
  omega

theorem absValue_nonneg (fmt : Bool) (a : BitVec 64) : 0 ≤ absValue ℚ fmt a := by
  unfold absValue mag
  split <;> positivity

theorem absValue_eq_zero : absValue ℚ fmt a = 0 ↔ isZero fmt a = true := by
  have hz (u : ℤ) : (2 : ℚ) ^ u ≠ 0 := zpow_ne_zero u two_ne_zero
  rw [absValue, isZero, Bool.and_eq_true, beq_iff_eq, beq_iff_eq]
  split
  case isTrue h0 =>
    rw [mul_eq_zero, or_iff_left (hz _), Nat.cast_eq_zero]
    exact (and_iff_right h0).symm
  case isFalse h0 =>
    have hs : (sig fmt a : ℚ) ≠ 0 := by
      have := (sig_bounds fmt a).1
      exact_mod_cast (show sig fmt a ≠ 0 by omega)
    rw [mag, mul_eq_zero, or_iff_left (hz _)]
    exact iff_of_false hs fun h => h0 h.1

/-- What the unit calls tiny is below one half. -/
theorem absValue_lt_half (h : f2iTiny fmt a = true) : absValue ℚ fmt a < 1 / 2 := by
  have ht : (exp fmt a : ℤ) - bias fmt + 1 < 0 := of_decide_eq_true h
  have hb : 127 ≤ bias fmt := by cases fmt <;> decide
  have hhalf : (1 / 2 : ℚ) = 2 ^ 53 * 2 ^ (-54 : ℤ) := by norm_num
  have key (n : ℕ) (hn : n < 2 ^ 53) (u : ℤ) (hu : u ≤ -54) : (n : ℚ) * 2 ^ u < 1 / 2 := by
    have h1 : (n : ℚ) < 2 ^ 53 := by exact_mod_cast hn
    have h2 : (2 : ℚ) ^ u ≤ 2 ^ (-54 : ℤ) := zpow_le_zpow_right₀ one_le_two hu
    have h3 : (0 : ℚ) < 2 ^ u := zpow_pos two_pos u
    calc (n : ℚ) * 2 ^ u < 2 ^ 53 * 2 ^ u := mul_lt_mul_of_pos_right h1 h3
      _ ≤ 2 ^ 53 * 2 ^ (-54 : ℤ) := mul_le_mul_of_nonneg_left h2 (by positivity)
      _ = 1 / 2 := hhalf.symm
  rw [absValue]
  split
  case isTrue =>
    have hf := frac_lt fmt a
    exact key _ (by omega) _ (by omega)
  case isFalse => exact key _ (sig_bounds fmt a).2 _ (by omega)

/-- The integer part and the tail that the unit rounds. -/
theorem f2i_tail (hh : f2iHuge fmt a = false) :
    ∃ f : ℚ, Tail f (f2iGuard fmt a) (f2iSticky fmt a) ∧
      absValue ℚ fmt a = f2iIntmag fmt a + f := by
  have hb : 127 ≤ bias fmt := by cases fmt <;> decide
  cases ht : f2iTiny fmt a with
  | true =>
    have hlt := absValue_lt_half ht
    have hint : f2iIntmag fmt a = 0 := by rw [f2iIntmag, ht, if_pos rfl]
    refine ⟨absValue ℚ fmt a, ⟨absValue_nonneg fmt a, by linarith, ?_, ?_⟩, by rw [hint]; simp⟩
    · rw [f2iGuard, ht, if_pos rfl]
      exact iff_of_false Bool.false_ne_true (not_le.2 hlt)
    · rw [f2iSticky, ht, if_pos rfl, Bool.not_eq_true', ← Bool.not_eq_true, ← absValue_eq_zero]
      exact (and_iff_left hlt.ne).symm
  | false =>
    have hE : 0 ≤ f2iE1 fmt a ∧ f2iE1 fmt a ≤ 64 := by
      rw [f2iTiny, decide_eq_false_iff_not] at ht
      rw [f2iHuge, decide_eq_false_iff_not] at hh
      omega
    have hsh : (f2iSh fmt a : ℤ) = (exp fmt a : ℤ) - bias fmt + 1 := by
      rw [f2iSh, ht, hh, if_neg Bool.false_ne_true, if_neg Bool.false_ne_true,
        Int.toNat_of_nonneg hE.1]
      rfl
    have he : exp fmt a ≠ 0 := by
      have h := hE.1
      rw [f2iE1] at h
      omega
    have hfix : f2iFixed fmt a = sig fmt a * 2 ^ f2iSh fmt a := by
      have hs : f2iSh fmt a ≤ 64 := by
        have h := hE.2
        rw [f2iE1] at h
        omega
      have hlt : sig fmt a * 2 ^ f2iSh fmt a < 2 ^ 117 :=
        lt_of_lt_of_eq (Nat.mul_lt_mul_of_lt_of_le (sig_bounds fmt a).2
          (Nat.pow_le_pow_right (by decide) hs) (by decide)) (by norm_num)
      rw [f2iFixed, Nat.mod_eq_of_lt hlt]
    have hval : absValue ℚ fmt a = f2iFixed fmt a / 2 ^ 53 := by
      rw [absValue, if_neg he, mag, hfix, Nat.cast_mul, Nat.cast_pow, Nat.cast_ofNat,
        ← zpow_natCast, hsh, mul_div_assoc, ← zpow_natCast (2 : ℚ) 53, ← zpow_sub₀ two_ne_zero]
      congr 2
      push_cast
      ring
    have hint : f2iIntmag fmt a = f2iFixed fmt a / 2 ^ 53 := by
      rw [f2iIntmag, ht, if_neg Bool.false_ne_true]
    refine ⟨((f2iFixed fmt a % 2 ^ 53 : ℕ) + 0) / (2 * (2 ^ 52 : ℕ)), ?_, ?_⟩
    · refine Tail.of_bits (Nat.mod_lt _ (by decide)) le_rfl one_pos ?_ ?_
      · rw [f2iGuard, ht, if_neg Bool.false_ne_true, Nat.testBit_eq_decide_div_mod_eq,
          decide_eq_true_eq]
        omega
      · rw [f2iSticky, ht, if_neg Bool.false_ne_true, bne_iff_ne, or_iff_left (by simp)]
        omega
    · have hsplit : (f2iFixed fmt a : ℚ) =
          2 ^ 53 * (f2iFixed fmt a / 2 ^ 53 : ℕ) + (f2iFixed fmt a % 2 ^ 53 : ℕ) := by
        exact_mod_cast (Nat.div_add_mod _ (2 ^ 53)).symm
      rw [hval, hint, hsplit]
      generalize f2iFixed fmt a / 2 ^ 53 = n
      generalize f2iFixed fmt a % 2 ^ 53 = r
      push_cast
      ring

/-- The integers that a register of the width holds. -/
def Fits (long : Bool) (r : ℤ) : Prop :=
  if long then -2 ^ 63 ≤ r ∧ r < 2 ^ 63 else -2 ^ 31 ≤ r ∧ r < 2 ^ 31

/-- The rounded integer. -/
def rounded (neg : Bool) (n : ℕ) : ℤ := if neg then -n else n

theorem not_fits_iff {neg : Bool} {n : ℕ} :
    ¬ Fits dstLong (rounded neg n) ↔
      (if neg then decide (limNeg dstLong < n) else decide (limPos dstLong < n)) = true := by
  cases dstLong <;> cases neg <;>
    simp only [Fits, rounded, limNeg, limPos, Bool.false_eq_true, if_true, if_false,
      decide_eq_true_eq] <;> omega

/-- A magnitude of `2 ^ 64` does not round into range. -/
theorem huge_rounds (dstLong : Bool) (hh : f2iHuge fmt a = true) :
    ∃ n, absValue ℚ fmt a = (n : ℕ) ∧ ¬ Fits dstLong (rounded (sgn fmt a) n) := by
  have hE : 64 < (exp fmt a : ℤ) - bias fmt + 1 := of_decide_eq_true hh
  obtain ⟨k, hk⟩ : ∃ k : ℕ, (k : ℤ) = (exp fmt a : ℤ) - bias fmt - 52 :=
    ⟨((exp fmt a : ℤ) - bias fmt - 52).toNat, Int.toNat_of_nonneg (by omega)⟩
  refine ⟨sig fmt a * 2 ^ k, ?_, ?_⟩
  · rw [absValue, if_neg (by omega), mag, ← hk, zpow_natCast, Nat.cast_mul, Nat.cast_pow,
      Nat.cast_ofNat]
  · have hlow : 2 ^ 52 * 2 ^ 12 ≤ sig fmt a * 2 ^ k :=
      Nat.mul_le_mul (sig_bounds fmt a).1 (Nat.pow_le_pow_right (by decide) (by omega))
    rw [not_fits_iff]
    have hlim : limNeg dstLong < 2 ^ 64 ∧ limPos dstLong < 2 ^ 64 := by cases dstLong <;> decide
    split <;>
      · rw [decide_eq_true_eq]
        omega

/-- What a conversion of the magnitude `v` to an integer gives: an invalid operation when the
rounded integer does not fit, and the rounded integer otherwise. -/
structure ToInt (long : Bool) (rm : RoundMode) (neg : Bool) (v : ℚ) (o : Out) (n : ℕ) : Prop where
  rounds : Rounds rm neg v n
  invalid : o.fflags.v = true ↔ ¬ Fits long (rounded neg n)
  result : Fits long (rounded neg n) →
    o.y = if long then BitVec.ofInt 64 (rounded neg n)
      else (BitVec.ofInt 32 (rounded neg n)).setWidth 64
  inexact : o.fflags.i = true ↔ Fits long (rounded neg n) ∧ ¬ ∃ k : ℕ, v = k
  rest : o.fflags.z = false ∧ o.fflags.o = false ∧ o.fflags.u = false

theorem setWidth_ofInt (r : ℤ) : (BitVec.ofInt 64 r).setWidth 32 = BitVec.ofInt 32 r := by
  apply BitVec.eq_of_toNat_eq
  rw [BitVec.toNat_setWidth, BitVec.toNat_ofInt, BitVec.toNat_ofInt]
  omega

theorem f2iSigned_eq :
    f2iSigned fmt rm a = BitVec.ofInt 64 (rounded (sgn fmt a) (f2iMagRnd fmt rm a)) := by
  have hneg (v : BitVec 64) : ~~~v + 1 = -v := (BitVec.neg_eq_not_add v).symm
  cases hs : sgn fmt a with
  | true =>
    simp only [f2iSigned, hs, rounded, if_true, hneg]
    rw [BitVec.ofInt_neg, BitVec.ofInt_natCast]
  | false =>
    simp only [f2iSigned, hs, rounded, Bool.false_eq_true, if_false, BitVec.ofInt_natCast]

/-- **To an integer.**  An infinity or a NaN is invalid; a finite number is rounded once. -/
theorem f2i_rounds (fmt dstLong : Bool) (rm : RoundMode) (a : BitVec 64) :
    let o := f2i fmt dstLong rm a
    if isNan fmt a || isInf fmt a then o.fflags = ⟨true, false, false, false, false⟩
    else ∃ n, ToInt dstLong rm (sgn fmt a) (absValue ℚ fmt a) o n := by
  intro o
  split
  case isTrue hni =>
    have hov : f2iOverflow fmt dstLong rm a = true := by
      rw [f2iOverflow, hni, Bool.true_or, Bool.true_or]
    simp [o, f2i, hov]
  case isFalse hni =>
    rw [Bool.not_eq_true] at hni
    cases hh : f2iHuge fmt a with
    | true =>
      have hov : f2iOverflow fmt dstLong rm a = true := by
        rw [f2iOverflow, hh, Bool.or_true, Bool.true_or]
      obtain ⟨n, hv, hfit⟩ := huge_rounds dstLong hh
      refine ⟨n, hv ▸ rounds_nat rm _ n, ?_, fun hf => absurd hf hfit, ?_, by simp [o, f2i]⟩
      · exact iff_of_true (by simp [o, f2i, hov]) hfit
      · exact iff_of_false (by simp [o, f2i, hov]) fun h => hfit h.1
    | false =>
      obtain ⟨f, hf, hv⟩ := f2i_tail hh
      have hlsb : (f2iIntmag fmt a).testBit 0 = decide (f2iIntmag fmt a % 2 = 1) := by
        simp [Nat.testBit_eq_decide_div_mod_eq]
      have hov : f2iOverflow fmt dstLong rm a = true ↔
          ¬ Fits dstLong (rounded (sgn fmt a) (f2iMagRnd fmt rm a)) := by
        rw [not_fits_iff, f2iOverflow, hni, hh, Bool.or_false, Bool.false_or]
      have hint : (¬ ∃ k : ℕ, absValue ℚ fmt a = k) ↔
          (f2iGuard fmt a || f2iSticky fmt a) = true := by
        rw [← Bool.not_eq_false, ← hf.eq_zero_iff, not_iff_not]
        constructor
        · rintro ⟨k, hk⟩
          have h0 := hf.nonneg
          have h1 := hf.lt_one
          have hlo : (f2iIntmag fmt a : ℚ) ≤ k := by linarith
          have hhi : (k : ℚ) < f2iIntmag fmt a + 1 := by linarith
          have hlo' : f2iIntmag fmt a ≤ k := by exact_mod_cast hlo
          have hhi' : k < f2iIntmag fmt a + 1 := by exact_mod_cast hhi
          obtain rfl : k = f2iIntmag fmt a := by omega
          linarith
        · intro hz
          exact ⟨_, by rw [hv, hz, add_zero]⟩
      refine ⟨f2iMagRnd fmt rm a, ?_, hov, fun hfit => ?_, ?_, by simp [o, f2i]⟩
      · rw [hv, f2iMagRnd, hlsb]
        exact hf.rounds rm _ _
      · have hn : f2iOverflow fmt dstLong rm a = false := by
          rw [← Bool.not_eq_true, hov, not_not]
          exact hfit
        simp only [o, f2i, hn, Bool.false_eq_true, if_false, f2iSigned_eq]
        split
        · rfl
        · rw [setWidth_ofInt]
      · rw [hint]
        cases hn : f2iOverflow fmt dstLong rm a with
        | true => exact iff_of_false (by simp [o, f2i, hn]) fun h => hov.1 hn h.1
        | false =>
          have hfit : Fits dstLong (rounded (sgn fmt a) (f2iMagRnd fmt rm a)) := by
            rw [← not_not (a := Fits _ _), ← hov, hn]
            exact Bool.false_ne_true
          simp [o, f2i, hn, hfit]

end F2i

/-! ## Between the formats -/

section F2f

variable {rm : RoundMode} {a : BitVec 64}

/-- What a narrowing is handed to the rounding stage as. -/
def narrowSig (a : BitVec 64) : Sig := ⟨sig true a, false, false, false⟩

theorem narrow_bits (rm : RoundMode) (a : BitVec 64) :
    narrowUp rm a = (narrowSig a).roundUp false rm (sgn true a) ∧
      narrowInexact a = (narrowSig a).inexact false ∧
      narrowFracRnd rm a = fracRnd false rm (sgn true a) (narrowSig a) := by
  have hf := frac_lt true a
  have hg : (narrowSig a).wG false = (frac true a).testBit 28 := by
    simp only [narrowSig, Sig.wG, sig, Nat.testBit_eq_decide_div_mod_eq, Bool.false_eq_true,
      if_false, decide_eq_decide]
    omega
  have ht : ((narrowSig a).wR false || (narrowSig a).wS false) = (frac true a % 2 ^ 28 != 0) := by
    simp only [narrowSig, Sig.wR, Sig.wS, sig, Nat.testBit_eq_decide_div_mod_eq,
      Bool.false_eq_true, if_false, Bool.or_false]
    rw [Bool.eq_iff_iff]
    simp only [Bool.or_eq_true, bne_iff_ne, decide_eq_true_eq]
    omega
  have hlsb : decide ((narrowSig a).sig / lastBit false % 2 = 1) = (frac true a).testBit 29 := by
    simp only [narrowSig, lastBit, sig, Nat.testBit_eq_decide_div_mod_eq, Bool.false_eq_true,
      if_false, decide_eq_decide]
    omega
  have hup : narrowUp rm a = (narrowSig a).roundUp false rm (sgn true a) := by
    rw [Sig.roundUp_eq, hg, ht, hlsb, narrowUp]
  refine ⟨hup, ?_, ?_⟩
  · rw [Sig.inexact, Bool.or_assoc, hg, ht, narrowInexact]
  · have hfrac : frac true a / 2 ^ 29 = (narrowSig a).sig / lastBit false - 2 ^ fracBits false := by
      simp only [narrowSig, lastBit, fracBits, sig, Bool.false_eq_true, if_false]
      omega
    rw [narrowFracRnd, fracRnd, hup, hfrac]

theorem narrowSig_norm (a : BitVec 64) :
    Norm false (narrowSig a) ((exp true a : ℤ) - 896) (mag ℚ true a) := by
  have h : Norm false (narrowSig a) ((exp true a : ℤ) - 896)
      (((narrowSig a).sig + 0 : ℚ) * 2 ^ ((exp true a : ℤ) - 896 - bias false - 52)) :=
    Norm.of_tail (sig_bounds true a).1 (sig_bounds true a).2 Tail.zero
  have hexp : (exp true a : ℤ) - 896 - bias false - 52 = (exp true a : ℤ) - bias true - 52 := by
    simp only [bias, Bool.false_eq_true, if_true, if_false]
    omega
  rw [hexp, add_zero] at h
  exact h

theorem narrowE_eq :
    narrowE rm a = (narrowSig a).expReal false rm (sgn true a) ((exp true a : ℤ) - 896) := by
  have hn := narrowSig_norm a
  have hbits : fracBits false = 23 := rfl
  rw [narrowE, Sig.expReal, ← fracRnd_carry rm (sgn true a) hn.low hn.high, ← (narrow_bits rm a).2.2,
    hbits]

/-- What a conversion of a double to a single gives: a normal number rounded once, with the
overflow results of the mode; the other classes stay what they are. -/
structure Narrows (rm : RoundMode) (a : BitVec 64) (o : Out) : Prop where
  normal : Normal true a → o.denorm = false →
    Correct false rm (sgn true a) (mag ℚ true a) o.y o.fflags
  denorm : o.denorm = true ↔ isDenorm true a = true ∨
    Normal true a ∧ Tiny false rm (sgn true a) (mag ℚ true a)
  zero : isZero true a = true →
    o.y = zero false (sgn true a) ∧ o.fflags = ⟨false, false, false, false, false⟩
  inf : isInf true a = true →
    o.y = infinity false (sgn true a) ∧ o.fflags = ⟨false, false, false, false, false⟩
  nan : isNan true a = true →
    o.y = defNan false ∧ o.fflags = ⟨isSnan true a, false, false, false, false⟩

/-- **To a single.** -/
theorem narrow_rounds (rm : RoundMode) (a : BitVec 64) : Narrows rm a (f2f rm a false) := by
  set o := f2f rm a false with ho
  have hn := narrowSig_norm a
  obtain ⟨-, hin, hfr⟩ := narrow_bits rm a
  have hu : narrowUnderflow rm a =
      (narrowSig a).underflow false rm (sgn true a) ((exp true a : ℤ) - 896) := by
    rw [narrowUnderflow, Sig.underflow, narrowE_eq]
  have hov : narrowOverflow rm a =
      (narrowSig a).overflow false rm (sgn true a) ((exp true a : ℤ) - 896) := by
    rw [narrowOverflow, Sig.overflow, narrowE_eq]
    rfl
  have hplain (ha : Normal true a) : isZero true a = false ∧ isDenorm true a = false ∧
      isNan true a = false ∧ isInf true a = false := (normal_iff true a).1 ha
  refine ⟨fun ha hd => ?_, ?_, fun hz => ?_, fun hi => ?_, fun hna => ?_⟩
  · obtain ⟨hz, hden, hnan, hinf⟩ := hplain ha
    have hun : narrowUnderflow rm a = false := by
      simpa [o, f2f, hden, narrowSpecial, hz, hnan, hinf] using hd
    have hc := hn.correct rm (sgn true a) (hu ▸ hun)
    have hy : o.y = (narrowSig a).packed false rm (sgn true a) ((exp true a : ℤ) - 896) := by
      have hE : ((narrowSig a).expReal false rm (sgn true a) ((exp true a : ℤ) - 896) -
          ((narrowE rm a % 2 ^ 8).toNat : ℕ)) % (infExp false + 1) = 0 := by
        rw [← narrowE_eq]
        simp only [infExp, Bool.false_eq_true, if_false]
        omega
      rw [Sig.packed, ← hov, Sig.ovfY, fracRnd_packed rm (sgn true a) hn.low hn.high hE, ← hfr]
      simp only [o, f2f, narrowY, hz, hnan, hinf, Bool.false_eq_true, if_false]
    have hfl : o.fflags = ⟨false, false, narrowOverflow rm a, false,
        (narrowSig a).inexact false || narrowOverflow rm a⟩ := by
      simp [o, f2f, isSnan, narrowSpecial, hz, hnan, hinf, hun, hin]
    rw [hy, hfl, hov]
    exact hc
  · have hspec : Normal true a ↔ isDenorm true a = false ∧ narrowSpecial a = false := by
      rw [normal_iff, narrowSpecial, Bool.or_eq_false_iff, Bool.or_eq_false_iff]
      tauto
    rw [← hn.underflow_iff rm (sgn true a), ← hu, hspec]
    simp only [o, f2f, Bool.false_eq_true, if_false, Bool.or_eq_true, Bool.and_eq_true,
      Bool.not_eq_true']
    cases isDenorm true a <;> simp
  · have hnan : isNan true a = false ∧ isInf true a = false := by
      simp only [isZero, Bool.and_eq_true, beq_iff_eq] at hz
      simp [isNan, isInf, hz, infExp]
    simp [o, f2f, narrowY, narrowSpecial, isSnan, hz, hnan]
  · have hnan : isNan true a = false := by
      simp only [isInf, Bool.and_eq_true, beq_iff_eq] at hi
      simp [isNan, hi]
    simp [o, f2f, narrowY, narrowSpecial, isSnan, hi, hnan]
  · simp [o, f2f, narrowY, narrowSpecial, hna]

/-- What a conversion of a single to a double gives: the number itself, but for a denormal. -/
structure Widens (a : BitVec 64) (o : Out) : Prop where
  normal : Normal false a →
    Normal true o.y ∧ sgn true o.y = sgn false a ∧ mag ℚ true o.y = mag ℚ false a
  zero : isZero false a = true → o.y = zero true (sgn false a)
  inf : isInf false a = true → o.y = infinity true (sgn false a)
  nan : isNan false a = true → o.y = defNan true
  denorm : o.denorm = isDenorm false a
  fflags : o.fflags = ⟨isSnan false a, false, false, false, false⟩

/-- **To a double**, which has every single. -/
theorem widen_exact (rm : RoundMode) (a : BitVec 64) : Widens a (f2f rm a true) := by
  set o := f2f rm a true with ho
  refine ⟨fun ha => ?_, fun hz => ?_, fun hi => ?_, fun hna => ?_, rfl, rfl⟩
  · obtain ⟨hz, -, hnan, hinf⟩ := (normal_iff false a).1 ha
    have hy : o.y = word true (sgn false a) (exp false a + 896) (frac false a) := by
      simp [o, f2f, wideY, hz, hnan, hinf]
    obtain ⟨h0, h1⟩ := ha
    have hinf' : infExp false = 255 ∧ infExp true = 2047 := ⟨rfl, rfl⟩
    obtain ⟨he, hs⟩ := exp_word true (sgn false a) (e := exp false a + 896) (frac false a) (by omega)
    have hf : frac true o.y = frac false a := by
      rw [hy, frac_word true _ _ (frac_lt false a)]
      exact Nat.mul_one _
    refine ⟨?_, hy ▸ hs, ?_⟩
    · rw [Normal, hy, he]
      omega
    · have hexp : ((exp false a + 896 : ℕ) : ℤ) - bias true - 52 =
          (exp false a : ℤ) - bias false - 52 := by
        simp only [bias, Bool.false_eq_true, if_true, if_false]
        push_cast
        ring
      rw [mag, mag, sig, sig, hf, hy, he, hexp]
  · have hnan : isNan false a = false ∧ isInf false a = false := by
      simp only [isZero, Bool.and_eq_true, beq_iff_eq] at hz
      simp [isNan, isInf, hz, infExp]
    simp [o, f2f, wideY, hz, hnan]
  · have hnan : isNan false a = false := by
      simp only [isInf, Bool.and_eq_true, beq_iff_eq] at hi
      simp [isNan, hi]
    simp [o, f2f, wideY, hi, hnan]
  · simp [o, f2f, wideY, hna]

end F2f

/-! ## There and back -/

section Return

variable {rm : RoundMode}

/-- A word as a double. -/
theorem i2f_word (rm : RoundMode) (x : BitVec 64) :
    let y := (i2f false true rm x).y
    sgn true y = decide (intVal false x < 0) ∧ absValue ℚ true y = (intVal false x).natAbs ∧
      (isNan true y || isInf true y) = false := by
  intro y
  have hr := i2f_rounds false true rm x
  by_cases hv : intVal false x = 0
  · rw [if_pos hv] at hr
    have hy : y = 0#64 := hr.1.trans (by decide)
    rw [hy, hv]
    refine ⟨by decide, ?_, by decide⟩
    rw [Int.natAbs_zero, Nat.cast_zero, absValue_eq_zero]
    decide
  · rw [if_neg hv] at hr
    obtain ⟨⟨e, m, i, hround, hy, -⟩, -⟩ := hr
    have hlt : (intVal false x).natAbs < 2 ^ 52 := by
      have hlo := BitVec.le_toInt (x.setWidth 32)
      have hhi := BitVec.toInt_lt (x := x.setWidth 32)
      simp only [intVal, Bool.false_eq_true, if_false]
      omega
    obtain ⟨rfl, h0, h1⟩ := hround.of_nat hlt
    obtain ⟨hn, hs, hm⟩ := hround.exact h0 h1
    rw [← hy] at hn hs hm
    refine ⟨hs, ?_, finite_iff.2 hn.2⟩
    rw [absValue, if_neg hn.1.ne']
    exact hm

/-- **A word to a double and back.** -/
theorem word_returns (rm rm' : RoundMode) (long : Bool) (x : BitVec 64) :
    let o := f2i true long rm' (i2f false true rm x).y
    o.fflags = ⟨false, false, false, false, false⟩ ∧ intVal long o.y = intVal false x ∧
      (long = false → o.y = 0#32 ++ x.extractLsb' 0 32) := by
  intro o
  obtain ⟨hs, hv, hf⟩ := i2f_word rm x
  have h := f2i_rounds true long rm' (i2f false true rm x).y
  simp only [hf, Bool.false_eq_true, if_false, hs, hv] at h
  obtain ⟨n, h⟩ := h
  obtain rfl : n = (intVal false x).natAbs := h.rounds.unique (rounds_nat rm' _ _)
  have hlo := BitVec.le_toInt (x.setWidth 32)
  have hhi := BitVec.toInt_lt (x := x.setWidth 32)
  have hint : intVal false x = (x.setWidth 32).toInt := rfl
  have hr : rounded (decide (intVal false x < 0)) (intVal false x).natAbs = intVal false x := by
    by_cases hneg : intVal false x < 0
    · rw [rounded, if_pos (decide_eq_true hneg)]
      omega
    · rw [rounded, if_neg (by simpa using hneg)]
      omega
  have hfit : Fits long (intVal false x) := by
    rw [hint]
    cases long <;> simp only [Fits, Bool.false_eq_true, if_true, if_false] <;> omega
  have hres := h.result
  have hinv := h.invalid
  have hin := h.inexact
  rw [hr] at hres hinv hin
  have hvf : o.fflags.v = false := eq_false_of_ne_true fun ht => hinv.1 ht hfit
  have hif : o.fflags.i = false := eq_false_of_ne_true fun ht => (hin.1 ht).2 ⟨_, rfl⟩
  obtain ⟨hzf, hof, huf⟩ := h.rest
  have hy := hres hfit
  have hlow : (0#32 ++ x.extractLsb' 0 32 : BitVec 64) = (x.setWidth 32).setWidth 64 := by
    ext i hi
    simp only [BitVec.getElem_append, BitVec.getElem_extractLsb', BitVec.getElem_setWidth]
    grind
  refine ⟨?_, ?_, fun hl => ?_⟩
  · rw [show o.fflags = ⟨o.fflags.v, o.fflags.z, o.fflags.o, o.fflags.u, o.fflags.i⟩ from rfl,
      hvf, hzf, hof, huf, hif]
  · show intVal long o.y = _
    rw [hy, hint]
    cases long with
    | true => exact BitVec.toInt_ofInt_eq_self (by decide) (by omega) (by omega)
    | false =>
      simp only [intVal, Bool.false_eq_true, if_false, BitVec.ofInt_toInt]
      rw [BitVec.setWidth_setWidth_of_le _ (by decide), BitVec.setWidth_eq]
  · subst hl
    rw [hlow]
    show o.y = _
    rw [hy, hint, if_neg Bool.false_ne_true, BitVec.ofInt_toInt]

/-- The low half of a register from its fields as a single. -/
theorem word_single (a : BitVec 64) :
    word false (sgn false a) (exp false a) (frac false a / lastBit false) =
      0#32 ++ a.extractLsb' 0 32 := by
  have h : 0#32 ++ a.extractLsb' 0 32 =
      0#32 ++ (BitVec.ofBool (sgn false a) ++ a.extractLsb' 0 31) := @pass_self false a
  rw [word_fields, if_neg Bool.false_ne_true, h]

/-- A number of the format is not below its normal range. -/
theorem not_tiny_self {fmt : Bool} {a : BitVec 64} (ha : Normal fmt a) (rm : RoundMode)
    (neg : Bool) : ¬ Tiny fmt rm neg (mag ℚ fmt a) := by
  obtain ⟨-, hcarry, -⟩ := exact_of_mod (sig_bounds fmt a).2 (sig_mod_lastBit fmt a) rm neg
  rw [← (norm_of_sig fmt a).underflow_iff rm neg, Sig.underflow, Sig.expReal, hcarry,
    decide_eq_true_eq, not_le]
  have := ha.1
  rw [Bool.toNat_false]
  omega

theorem Narrows.plain {a : BitVec 64} {o : Out} (h : Narrows rm a o) (hn : ¬ Normal true a)
    (hd : isDenorm true a = false) : o.denorm = false := by
  rw [← Bool.not_eq_true, h.denorm, hd]
  rintro (hf | ⟨ha, -⟩)
  · exact Bool.false_ne_true hf
  · exact hn ha

/-- **A single to a double and back.** -/
theorem single_returns (rm rm' : RoundMode) (a : BitVec 64) (hd : isDenorm false a = false)
    (hn : isNan false a = false) :
    let o := f2f rm' (f2f rm a true).y false
    o.y = 0#32 ++ a.extractLsb' 0 32 ∧ o.denorm = false ∧
      o.fflags = ⟨false, false, false, false, false⟩ := by
  intro o
  have hw := widen_exact rm a
  have hnar : Narrows rm' (f2f rm a true).y o := narrow_rounds rm' (f2f rm a true).y
  rw [← word_single]
  by_cases hz : isZero false a = true
  · have hzero (s : Bool) : isZero true (zero true s) = true ∧ sgn true (zero true s) = s ∧
        ¬ Normal true (zero true s) ∧ isDenorm true (zero true s) = false := by
      cases s <;> decide
    obtain ⟨hz', hs, hc, hden⟩ := hzero (sgn false a)
    rw [← hw.zero hz] at hz' hs hc hden
    obtain ⟨ho, hfl⟩ := hnar.zero hz'
    simp only [isZero, Bool.and_eq_true, beq_iff_eq] at hz
    exact ⟨by rw [ho, hs, hz.1, hz.2]; rfl, hnar.plain hc hden, hfl⟩
  by_cases hi : isInf false a = true
  · have hinf (s : Bool) : isInf true (infinity true s) = true ∧ sgn true (infinity true s) = s ∧
        ¬ Normal true (infinity true s) ∧ isDenorm true (infinity true s) = false := by
      cases s <;> decide
    obtain ⟨hi', hs, hc, hden⟩ := hinf (sgn false a)
    rw [← hw.inf hi] at hi' hs hc hden
    obtain ⟨ho, hfl⟩ := hnar.inf hi'
    simp only [isInf, Bool.and_eq_true, beq_iff_eq] at hi
    exact ⟨by rw [ho, hs, hi.1, hi.2]; rfl, hnar.plain hc hden, hfl⟩
  have ha : Normal false a := by
    rw [normal_iff]
    exact ⟨eq_false_of_ne_true hz, hd, hn, eq_false_of_ne_true hi⟩
  obtain ⟨hy, hs, hm⟩ := hw.normal ha
  have hod : o.denorm = false := by
    rw [← Bool.not_eq_true, hnar.denorm, ((normal_iff _ _).1 hy).2.1, hs, hm]
    rintro (hf | ⟨-, ht⟩)
    · exact Bool.false_ne_true hf
    · exact not_tiny_self ha rm' _ ht
  have hc := hnar.normal hy hod
  rw [hs, hm] at hc
  obtain ⟨e, m, i, hr, ho, hfl⟩ := hc
  obtain ⟨e', m', i', hr', hword, hfl'⟩ := correct_self (K := ℚ) ha rm' (sgn false a)
  obtain ⟨rfl, rfl, rfl⟩ := hr.unique hr'
  exact ⟨ho.trans hword.symm, hod, hfl.trans hfl'.symm⟩

end Return

/-! ## The law of the conversions -/

/-- What a conversion from an integer gives. -/
structure FromInt (srcLong fmt : Bool) (rm : RoundMode) (x : BitVec 64) (o : Out) : Prop where
  zero : intVal srcLong x = 0 →
    o.y = zero fmt false ∧ o.fflags = ⟨false, false, false, false, false⟩
  correct : intVal srcLong x ≠ 0 →
    Correct fmt rm (decide (intVal srcLong x < 0)) ((intVal srcLong x).natAbs : ℚ) o.y o.fflags
  /-- Inexact says that the format does not have the integer. -/
  inexact : intVal srcLong x ≠ 0 →
    (o.fflags.i = true ↔ ¬ ∃ b, Normal fmt b ∧ mag ℚ fmt b = (intVal srcLong x).natAbs)

/-- **From an integer.** -/
theorem i2f_correct (srcLong fmt : Bool) (rm : RoundMode) (x : BitVec 64) :
    FromInt srcLong fmt rm x (i2f srcLong fmt rm x) := by
  have h := i2f_rounds srcLong fmt rm x
  refine ⟨fun hz => ?_, fun hz => ?_, fun hz => ?_⟩
  · rwa [if_pos hz] at h
  · rw [if_neg hz] at h
    exact h.1
  · rw [if_neg hz] at h
    exact h.1.inexact_iff h.2

/-- **What the conversions compute**, in every format and rounding mode.  From a word to a
double and back is the identity, and so is from a single to a double and back, but for the
denormals and the NaNs. -/
theorem conversions_correct :
    (∀ srcLong fmt rm x, FromInt srcLong fmt rm x (i2f srcLong fmt rm x)) ∧
    (∀ fmt long rm a, if isNan fmt a || isInf fmt a
      then (f2i fmt long rm a).fflags = ⟨true, false, false, false, false⟩
      else ∃ n, ToInt long rm (sgn fmt a) (absValue ℚ fmt a) (f2i fmt long rm a) n) ∧
    (∀ rm a, Widens a (f2f rm a true)) ∧
    (∀ rm a, Narrows rm a (f2f rm a false)) ∧
    (∀ rm rm' long x, let o := f2i true long rm' (i2f false true rm x).y
      o.fflags = ⟨false, false, false, false, false⟩ ∧ intVal long o.y = intVal false x ∧
        (long = false → o.y = 0#32 ++ x.extractLsb' 0 32)) ∧
    (∀ rm rm' a, (isDenorm false a || isNan false a) = false →
      let o := f2f rm' (f2f rm a true).y false
      o.y = 0#32 ++ a.extractLsb' 0 32 ∧ o.denorm = false ∧
        o.fflags = ⟨false, false, false, false, false⟩) :=
  ⟨i2f_correct, f2i_rounds, widen_exact, narrow_rounds, word_returns, fun rm rm' a h =>
    single_returns rm rm' a (Bool.or_eq_false_iff.1 h).1 (Bool.or_eq_false_iff.1 h).2⟩

/-- A quiet NaN does not come back: it becomes the default one. -/
theorem nan_not_returned :
    ¬ ∀ rm rm' a, isDenorm false a = false →
      (f2f rm' (f2f rm a true).y false).y = 0#32 ++ a.extractLsb' 0 32 := fun h =>
  absurd (h .nearest .nearest 0x7f800001#64 (by decide)) (by decide)

end R9999.Fpu
