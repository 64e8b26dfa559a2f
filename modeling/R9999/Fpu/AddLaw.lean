import R9999.Fpu.Add

/-!
# What the adder computes

The claim of the adder is `SumCorrect`: the exact sum of its operands, normal numbers or
zeros, rounded once, or a zero whose sign is that of the standard.  `sumLaw_iff` is that the
adder meets it on all operands but a power of two and the double next below it, of opposite
signs: their difference lies in the guard bit alone.
-/

open Hw (RoundMode Rounds Tail Jam)

namespace R9999.Fpu.Add

/-! ## The law -/

/-- The exact sum or difference. -/
def exact (i : AddIn) : ℚ :=
  if i.sub then value ℚ i.fmt i.a - value ℚ i.fmt i.b else value ℚ i.fmt i.a + value ℚ i.fmt i.b

/-- The sign of a sum that is zero: that of two zeros of one sign, else the sign the mode
prescribes. -/
def zeroSign (i : AddIn) : Bool :=
  if sgn i.fmt i.a = sgnB i then sgn i.fmt i.a else decide (i.rm = .down)

/-- The exact sum, rounded once. -/
def SumCorrect (i : AddIn) (o : Out) : Prop :=
  if exact i = 0 then o.y = zero i.fmt (zeroSign i) ∧ o.fflags = ⟨false, false, false, false, false⟩
  else Correct i.fmt i.rm (decide (exact i < 0)) |exact i| o.y o.fflags

/-- A normal number or a signed zero. -/
def Finite (fmt : Bool) (a : BitVec 64) : Prop := Normal fmt a ∨ isZero fmt a = true

/-- A result that is not denormal is the correct one. -/
def SumLaw (i : AddIn) : Prop := (result i).denorm = false → SumCorrect i (result i)

/-- `a` is a power of two and `b` the double next below it in magnitude. -/
def NextBelow (a b : BitVec 64) : Prop :=
  exp true a = exp true b + 1 ∧ frac true a = 0 ∧ frac true b = 2 ^ 52 - 1

/-- The difference of a power of two and the double next below it lies in the guard bit alone. -/
def GuardOnly (i : AddIn) : Prop :=
  i.fmt = true ∧ sgn i.fmt i.a ≠ sgnB i ∧ (NextBelow i.a i.b ∨ NextBelow i.b i.a)

/-- Its exponent is in the range of the adder. -/
def InRange (i : AddIn) : Prop := 53 ≤ max (exp i.fmt i.a) (exp i.fmt i.b)

instance (a b : BitVec 64) : Decidable (NextBelow a b) := inferInstanceAs (Decidable (_ ∧ _))

instance (i : AddIn) : Decidable (GuardOnly i) := inferInstanceAs (Decidable (_ ∧ _))

instance (i : AddIn) : Decidable (InRange i) := inferInstanceAs (Decidable (_ ≤ _))

theorem exact_eq (i : AddIn) :
    exact i = signed (sgn i.fmt i.a) (if isZero i.fmt i.a then 0 else mag ℚ i.fmt i.a) +
      signed (sgnB i) (if isZero i.fmt i.b then 0 else mag ℚ i.fmt i.b) := by
  rw [exact, sgnB, value, value]
  cases i.sub <;> cases sgn i.fmt i.b <;> simp [signed, sub_eq_add_neg]

/-! ## The fourth stage -/

section Pack

variable {fmt : Bool} {rm : RoundMode} {y : BitVec 64} {r : R3} {e : ℤ} {x : ℚ}

theorem roundExp_eq (h : Handed fmt r e x) (he : 0 < e) :
    ((if r.sig.carry fmt rm r.sign then (r.exp + 1) % 2 ^ 12 else r.exp : ℕ) : ℤ) =
      r.sig.expReal fmt rm r.sign e := by
  have hexp := h.exp
  have hle := h.le
  have hr : (r.exp : ℤ) = e := by omega
  rw [Sig.expReal]
  cases r.sig.carry fmt rm r.sign with
  | true =>
    rw [if_pos rfl, Bool.toNat_true]
    omega
  | false => simpa using hr

/-- The overflow test of a twelve-bit exponent. -/
theorem overflow_eq (fmt : Bool) {n : ℕ} (hn : n ≤ 2 ^ 11) :
    (decide (infExp fmt ≤ n % 2 ^ 11) || n.testBit 11) = decide ((infExp fmt : ℤ) ≤ n) := by
  have hinf : infExp fmt ≤ 2047 := by cases fmt <;> decide
  rw [Bool.eq_iff_iff, Bool.or_eq_true, decide_eq_true_eq, decide_eq_true_eq,
    Nat.testBit_eq_decide_div_mod_eq, decide_eq_true_eq]
  omega

theorem expReal_le (h : Handed fmt r e x) : r.sig.expReal fmt rm r.sign e ≤ 2 ^ 11 := by
  have hle := h.le
  have hc := Bool.toNat_le (r.sig.carry fmt rm r.sign)
  rw [Sig.expReal]
  omega

theorem finalSig_ne_zero (h : Handed fmt r e x) :
    (r.sig.finalSig fmt rm r.sign == 0) = false := by
  have hb : 2 ^ 52 ≤ r.sig.finalSig fmt rm r.sign :=
    (r.sig.finalSig_bounds rm r.sign h.norm.low h.norm.high).1
  rw [beq_eq_false_iff_ne]
  omega

theorem denorm_of_handed (h : Handed fmt r e x)
    (hop : r.op = ⟨fmt, rm, false, false, false, false, y⟩) :
    (s4 r).denorm = decide (e ≤ 0) := by
  have hz : (r.sig.finalSig fmt rm r.sign == 0) = false := finalSig_ne_zero h
  simp [s4, hop, h.le0, bne, hz]

/-- The fourth stage packs what it is handed. -/
theorem s4_of_handed (h : Handed fmt r e x)
    (hop : r.op = ⟨fmt, rm, false, false, false, false, y⟩) (he : 0 < e) :
    s4 r =
      ⟨r.sig.packed fmt rm r.sign e, false,
        ⟨false, false, r.sig.overflow fmt rm r.sign e, false,
          r.sig.inexact fmt || r.sig.overflow fmt rm r.sign e⟩⟩ := by
  have hz : (r.sig.finalSig fmt rm r.sign == 0) = false := finalSig_ne_zero h
  have hE := @roundExp_eq fmt rm r e x h he
  have hle : r.sig.expReal fmt rm r.sign e ≤ 2 ^ 11 := expReal_le h
  have hd : decide (e ≤ 0) = false := decide_eq_false (not_le.2 he)
  simp only [s4, hop, bne, hz, h.le0, hd, Sig.packed, Sig.normY, Sig.overflow, ← hE]
  generalize (if r.sig.carry fmt rm r.sign = true then (r.exp + 1) % 2 ^ 12 else r.exp) = n at hE ⊢
  have hpack : ((n : ℤ) % 2 ^ 11).toNat = n % 2 ^ 11 := by omega
  rw [overflow_eq fmt (by omega), hpack]
  simp

end Pack

/-! ## Zero operands -/

theorem mag_pos (fmt : Bool) (a : BitVec 64) : 0 < mag ℚ fmt a := by
  have hs : 0 < sig fmt a := (Nat.two_pow_pos 52).trans_le (sig_bounds fmt a).1
  exact mul_pos (Nat.cast_pos.2 hs) (zpow_pos two_pos _)

theorem signed_lt {neg : Bool} {v : ℚ} (hv : 0 < v) : decide (signed neg v < 0) = neg := by
  cases neg with
  | true => exact decide_eq_true (neg_neg_of_pos hv)
  | false => exact decide_eq_false hv.le.not_gt

theorem abs_signed {neg : Bool} {v : ℚ} (hv : 0 ≤ v) : |signed neg v| = v := by
  cases neg with
  | true => exact (abs_neg v).trans (abs_of_nonneg hv)
  | false => exact abs_of_nonneg hv

theorem signed_eq_zero {neg : Bool} {v : ℚ} : signed neg v = 0 ↔ v = 0 := by
  cases neg with
  | true => exact neg_eq_zero
  | false => exact Iff.rfl

/-- A sum by its sign and magnitude. -/
theorem sumCorrect_of_pos {i : AddIn} {o : Out} {neg : Bool} {v : ℚ} (hx : exact i = signed neg v)
    (hv : 0 < v) : SumCorrect i o ↔ Correct i.fmt i.rm neg v o.y o.fflags := by
  have hne : exact i ≠ 0 := by
    rw [hx, Ne, signed_eq_zero]
    exact hv.ne'
  rw [SumCorrect, if_neg hne, hx, signed_lt hv, abs_signed hv.le]

section Early

variable {i : AddIn}

/-- A normal number or a zero is neither special nor denormal. -/
theorem Finite.plain {fmt : Bool} {a : BitVec 64} (h : Finite fmt a) :
    isNan fmt a = false ∧ isInf fmt a = false ∧ isDenorm fmt a = false := by
  rcases h with h | h
  · obtain ⟨-, hd, hn, hi⟩ := (normal_iff fmt a).1 h
    exact ⟨hn, hi, hd⟩
  · have hinf : 0 ≠ infExp fmt := by cases fmt <;> decide
    obtain ⟨he, hf⟩ := (Bool.and_eq_true _ _).mp h
    rw [beq_iff_eq] at he hf
    simp [isNan, isInf, isDenorm, he, hf, hinf]

/-- The operation of two finite operands. -/
theorem op_of_finite (ha : Finite i.fmt i.a) (hb : Finite i.fmt i.b) :
    (s1 i).op =
      { fmt := i.fmt, rm := i.rm
        evalid := isZero i.fmt i.a || isZero i.fmt i.b
        special := false, inv := false, inden := false
        early :=
          if isZero i.fmt i.a && isZero i.fmt i.b then zero i.fmt (zeroSign i)
          else if isZero i.fmt i.a then
            word i.fmt (sgnB i) (exp i.fmt i.b) (frac i.fmt i.b / lastBit i.fmt)
          else word i.fmt (sgn i.fmt i.a) (exp i.fmt i.a) (frac i.fmt i.a / lastBit i.fmt) } := by
  obtain ⟨hna, hia, hda⟩ := ha.plain
  obtain ⟨hnb, hib, hdb⟩ := hb.plain
  have hs : special i.fmt i.a i.b = false := by simp [special, hna, hnb, hia, hib]
  have hd : inDenorm i.fmt i.a i.b = false := by simp [inDenorm, hda, hdb]
  simp only [s1, hs, hd, isSnan, hna, hnb, hia, hib, Bool.false_and, Bool.false_or,
    Bool.false_eq_true, if_false, word_fields, ← pass_self, zeroSign]

/-- An operand is zero: the first stage has the result. -/
theorem result_of_early (ha : Finite i.fmt i.a) (hb : Finite i.fmt i.b)
    (hz : (isZero i.fmt i.a || isZero i.fmt i.b) = true) :
    result i = ⟨(s1 i).op.early, false, ⟨false, false, false, false, false⟩⟩ := by
  have hop : (s3 (s2 (s1 i))).op = (s1 i).op := rfl
  simp only [result, s4, hop, op_of_finite ha hb, hz]
  simp

theorem sumCorrect_of_early (ha : Finite i.fmt i.a) (hb : Finite i.fmt i.b)
    (hz : (isZero i.fmt i.a || isZero i.fmt i.b) = true) : SumCorrect i (result i) := by
  rw [result_of_early ha hb hz, op_of_finite ha hb]
  have hx := exact_eq i
  cases hza : isZero i.fmt i.a with
  | true =>
    cases hzb : isZero i.fmt i.b with
    | true =>
      have h0 : exact i = 0 := by
        rw [hx, hza, hzb]
        simp [signed]
      rw [SumCorrect, if_pos h0]
      exact ⟨rfl, rfl⟩
    | false =>
      have hn : Normal i.fmt i.b := hb.resolve_right (by simp [hzb])
      rw [hza, hzb, if_pos rfl, if_neg Bool.false_ne_true, signed_eq_zero.2 rfl, zero_add] at hx
      rw [sumCorrect_of_pos hx (mag_pos _ _)]
      exact correct_self hn i.rm (sgnB i)
  | false =>
    have hn : Normal i.fmt i.a := ha.resolve_right (by simp [hza])
    have hzb : isZero i.fmt i.b = true := by simpa [hza] using hz
    rw [hza, hzb, if_pos rfl, if_neg Bool.false_ne_true, signed_eq_zero.2 rfl, add_zero] at hx
    rw [sumCorrect_of_pos hx (mag_pos _ _)]
    exact correct_self hn i.rm (sgn i.fmt i.a)

end Early

/-! ## Normal operands -/

/-- A sum in the guard bit. -/
theorem sub_eq_four {fmt : Bool} {a b : BitVec 64} {d : ℕ} :
    sig fmt a * 2 ^ 3 - alignRight (sig fmt b * 2 ^ 3) d = 4 ↔
      fmt = true ∧ d = 1 ∧ frac fmt a = 0 ∧ frac fmt b = 2 ^ 52 - 1 := by
  have hu := under_of_sig fmt a b d
  have ha := frac_lt fmt a
  have hb := frac_lt fmt b
  rcases d with - | - | d
  · rw [alignRight_zero]
    omega
  · rw [zero_add, alignRight_one, sig, sig]
    cases fmt with
    | true =>
      simp only [true_and]
      omega
    | false =>
      -- the fraction of a single is never all ones
      have hm := lastBit_dvd_frac false b
      simp only [lastBit, Bool.false_eq_true, if_false] at hm
      simp only [Bool.false_eq_true, false_and, iff_false]
      omega
  · have hlt := alignRight_far fmt b d
    have := hu.low
    omega

theorem rev_sub_ne_four {fmt : Bool} {a b : BitVec 64} {d : ℕ} :
    alignRight (sig fmt b * 2 ^ 3) d - sig fmt a * 2 ^ 3 ≠ 4 := by
  have hu := under_of_sig fmt a b d
  have ha := frac_lt fmt a
  have hb := frac_lt fmt b
  rcases d with - | - | d
  · rw [alignRight_zero]
    omega
  · rw [zero_add, alignRight_one, sig, sig]
    omega
  · have hlt := alignRight_far fmt b d
    have := hu.low
    omega

section Normal

variable (i : AddIn)

/-- The two cases in which a whole difference lies in the guard bit. -/
theorem alignSum_eq_four : alignSum (s1 i) = 4 ↔ GuardOnly i := by
  have hsgn : (s1 i).sgnA = sgn i.fmt i.a ∧ (s1 i).sgnB = sgnB i := ⟨rfl, rfl⟩
  rw [GuardOnly, alignSum, hsgn.1, hsgn.2]
  by_cases hs : sgn i.fmt i.a = sgnB i
  · have hbig : 2 ^ 55 ≤ (s1 i).a + (s1 i).b := by
      obtain ⟨va, vb, ⟨-, h⟩ | ⟨-, h⟩, -⟩ := aligned i
      · exact h.low.trans (Nat.le_add_right _ _)
      · exact h.low.trans (Nat.le_add_left _ _)
    rw [if_neg (not_not.2 hs)]
    exact iff_of_false (by omega) fun h => h.2.1 hs
  rw [if_pos hs]
  have habs (m n : ℕ) : (if n < m then m - n else n - m) = 4 ↔ m - n = 4 ∨ n - m = 4 := by
    split <;> omega
  rw [habs]
  by_cases h : exp i.fmt i.a < exp i.fmt i.b
  · obtain ⟨ha, hb, -⟩ := s1_of_lt h
    rw [ha, hb, or_iff_right rev_sub_ne_four, sub_eq_four, NextBelow, NextBelow]
    refine and_congr_right fun hf => ?_
    rw [hf] at h ⊢
    have hs' : sgn true i.a ≠ sgnB i := hf ▸ hs
    rw [and_iff_right hs']
    omega
  · obtain ⟨ha, hb, -⟩ := s1_of_le (not_lt.1 h)
    rw [ha, hb, or_iff_left rev_sub_ne_four, sub_eq_four, NextBelow, NextBelow]
    refine and_congr_right fun hf => ?_
    rw [hf] at h ⊢
    have hs' : sgn true i.a ≠ sgnB i := hf ▸ hs
    rw [and_iff_right hs']
    omega

/-- The result as the second stage computes it. -/
theorem sum_of_normal (ha : Normal i.fmt i.a) (hb : Normal i.fmt i.b) :
    ∃ w, Summed w (alignSum (s1 i)) ∧
      exact i = signed (alignSign (s1 i)) (w * ulp i.fmt (s1 i)) := by
  obtain ⟨va, vb, hal, hva, hvb⟩ := aligned i
  obtain ⟨w, hw, hsum⟩ := hal.summed
  refine ⟨w, hw, ?_⟩
  have hza := ((normal_iff _ _).1 ha).1
  have hzb := ((normal_iff _ _).1 hb).1
  have hscale (neg : Bool) (v : ℚ) : signed neg (v * ulp i.fmt (s1 i)) =
      signed neg v * ulp i.fmt (s1 i) := by
    cases neg with
    | true => exact (neg_mul v _).symm
    | false => rfl
  rw [exact_eq, hza, hzb, if_neg Bool.false_ne_true, if_neg Bool.false_ne_true, hva, hvb, hscale,
    hscale, hscale, ← add_mul, ← hsum]
  rfl

/-- The exponent of the first stage. -/
theorem exp_of_normal (ha : Normal i.fmt i.a) (hb : Normal i.fmt i.b) :
    0 < (s1 i).exp ∧ (s1 i).exp < 2047 ∧
      (s1 i).exp = max (exp i.fmt i.a) (exp i.fmt i.b) := by
  have hinf : infExp i.fmt ≤ 2047 := by cases i.fmt <;> decide
  obtain ⟨ha0, ha1⟩ := ha
  obtain ⟨hb0, hb1⟩ := hb
  by_cases h : exp i.fmt i.a < exp i.fmt i.b
  · rw [(s1_of_lt h).2.2]
    omega
  · rw [(s1_of_le (not_lt.1 h)).2.2]
    omega

theorem op_of_normal (ha : Normal i.fmt i.a) (hb : Normal i.fmt i.b) :
    ∃ y, (s3 (s2 (s1 i))).op = ⟨i.fmt, i.rm, false, false, false, false, y⟩ := by
  have hza := ((normal_iff _ _).1 ha).1
  have hzb := ((normal_iff _ _).1 hb).1
  have hop : (s3 (s2 (s1 i))).op = (s1 i).op := rfl
  rw [hop, op_of_finite (.inl ha) (.inl hb), hza, hzb]
  exact ⟨_, rfl⟩

/-- A sum that the normalization reaches. -/
theorem law_of_handed (ha : Normal i.fmt i.a) (hb : Normal i.fmt i.b)
    (h0 : alignSum (s1 i) ≠ 0) (h4 : alignSum (s1 i) ≠ 4) : SumLaw i := by
  obtain ⟨w, hw, hx⟩ := sum_of_normal i ha hb
  obtain ⟨he0, he1, -⟩ := exp_of_normal i ha hb
  obtain ⟨y, hop⟩ := op_of_normal i ha hb
  obtain ⟨e, h⟩ := handed_of_sum i.fmt hw he0 he1 h0 h4
  intro hd
  have he : 0 < e := by
    rw [result, denorm_of_handed h hop, decide_eq_false_iff_not] at hd
    omega
  have hpos : 0 < w * ulp i.fmt (s1 i) := by
    have hw0 : w ≠ 0 := fun hz => h0 (hw.jam.eq_zero_iff.1 hz)
    exact mul_pos (lt_of_le_of_ne hw.jam.nonneg (Ne.symm hw0)) (zpow_pos two_pos _)
  rw [sumCorrect_of_pos hx hpos, result, s4_of_handed h hop he]
  refine h.norm.correct i.rm _ ?_
  rw [Sig.underflow, decide_eq_false_iff_not, Sig.expReal]
  omega

theorem zero_false (fmt : Bool) : zero fmt false = 0#64 := by
  cases fmt <;> decide

/-- Numbers of one sign do not cancel. -/
theorem sgn_ne_of_zero (h : alignSum (s1 i) = 0) : sgn i.fmt i.a ≠ sgnB i := by
  intro hs
  have hsum : alignSum (s1 i) = (s1 i).a + (s1 i).b := if_neg (not_not.2 hs)
  obtain ⟨va, vb, ⟨-, hu⟩ | ⟨-, hu⟩, -⟩ := aligned i
  · have := hu.low
    omega
  · have := hu.low
    omega

/-- The fourth stage on a significand without a tail, away from the ends of the range. -/
theorem s4_of_exact {r : R3} {fmt : Bool} {rm : RoundMode} {y : BitVec 64} {n : ℕ}
    (hop : r.op = ⟨fmt, rm, false, false, false, false, y⟩) (hq : r.sig = ⟨n, false, false, false⟩)
    (hn : n < 2 ^ 53) (hmod : n % lastBit fmt = 0) :
    s4 r =
      { y :=
          if n = 0 then zero fmt (decide (rm = .down))
          else if infExp fmt ≤ r.exp % 2 ^ 11 ∨ r.exp.testBit 11 = true then Sig.ovfY fmt rm r.sign
          else word fmt r.sign (r.exp % 2 ^ 11) (n % 2 ^ 52 / lastBit fmt)
        denorm := r.expLe0 && n != 0
        fflags :=
          ⟨false, false, n != 0 && (decide (infExp fmt ≤ r.exp % 2 ^ 11) || r.exp.testBit 11),
            r.expLe0 && n != 0,
            n != 0 && (decide (infExp fmt ≤ r.exp % 2 ^ 11) || r.exp.testBit 11)⟩ } := by
  obtain ⟨hin, hcarry, hfinal⟩ := exact_of_mod hn hmod rm r.sign
  have hz : (if rm = .down then zero fmt true else 0#64) = zero fmt (decide (rm = .down)) := by
    rw [← zero_false fmt]
    split <;> simp_all
  simp only [s4, hop, hq, hin, hcarry, hfinal, hz]
  simp [bne]

/-- Exact cancellation. -/
theorem law_of_zero (ha : Normal i.fmt i.a) (hb : Normal i.fmt i.b)
    (h0 : alignSum (s1 i) = 0) : SumCorrect i (result i) := by
  obtain ⟨w, hw, hx⟩ := sum_of_normal i ha hb
  obtain ⟨he0, -, -⟩ := exp_of_normal i ha hb
  obtain ⟨y, hop⟩ := op_of_normal i ha hb
  have hw0 : w = 0 := hw.jam.eq_zero_iff.2 h0
  have hx0 : exact i = 0 := by
    rw [hx, hw0, zero_mul]
    exact signed_eq_zero.2 rfl
  have hz : zeroSign i = decide (i.rm = .down) := if_neg (sgn_ne_of_zero i h0)
  rw [SumCorrect, if_pos hx0, hz, result,
    s4_of_exact hop (s3_of_zero h0 he0) (by decide) (Nat.zero_mod _)]
  simp

/-- The difference in the guard bit comes out half again as large as a unit of the wrong
place. -/
theorem result_of_guard (ha : Normal i.fmt i.a) (hb : Normal i.fmt i.b) (hg : GuardOnly i) :
    (result i).denorm = decide ((s1 i).exp ≤ 52) ∧
      (52 < (s1 i).exp →
        (result i).y = word true (alignSign (s1 i)) ((s1 i).exp - 52) (2 ^ 51)) := by
  obtain ⟨he0, he1, -⟩ := exp_of_normal i ha hb
  obtain ⟨y, hop⟩ := op_of_normal i ha hb
  obtain ⟨hsig, hexp, hle⟩ := s3_of_guard ((alignSum_eq_four i).2 hg) he0
  have hf := hg.1
  have hmod : 2 ^ 51 % lastBit i.fmt = 0 := by rw [hf]; exact Nat.mod_one _
  rw [result, s4_of_exact hop hsig (by decide) hmod, hexp, hle, hf]
  refine ⟨?_, fun he => ?_⟩
  · have hle' : decide (((s1 i).exp : ℤ) - 52 ≤ 0) = decide ((s1 i).exp ≤ 52) := by
      rw [decide_eq_decide]
      omega
    exact (Bool.and_true _).trans hle'
  · have hm : ((s1 i).exp + 2 ^ 12 - 52) % 2 ^ 12 = (s1 i).exp - 52 := by omega
    have hm' : ((s1 i).exp - 52) % 2 ^ 11 = (s1 i).exp - 52 := Nat.mod_eq_of_lt (by omega)
    have hovf : ¬ (infExp true ≤ (s1 i).exp - 52 ∨ ((s1 i).exp - 52).testBit 11 = true) := by
      rw [Nat.testBit_eq_decide_div_mod_eq, decide_eq_true_eq, infExp, if_pos rfl]
      omega
    dsimp only
    rw [hm, hm', if_neg (by decide), if_neg hovf]
    rfl

/-- It is not the difference. -/
theorem guard_incorrect (ha : Normal i.fmt i.a) (hb : Normal i.fmt i.b) (hg : GuardOnly i)
    (he : 52 < (s1 i).exp) : ¬ SumCorrect i (result i) := by
  obtain ⟨w, hw, hx⟩ := sum_of_normal i ha hb
  have h4 := (alignSum_eq_four i).2 hg
  obtain ⟨he0, he1, -⟩ := exp_of_normal i ha hb
  have hw4 : w = (4 : ℕ) := h4 ▸ (hw.exact (by omega)).1
  have hpos : 0 < w * ulp i.fmt (s1 i) :=
    mul_pos (by rw [hw4]; norm_num) (zpow_pos two_pos _)
  have hf := hg.1
  have hnorm : Norm true ⟨2 ^ 52, false, false, false⟩ ((s1 i).exp - 53) (w * ulp true (s1 i)) := by
    have hpow : (2 : ℚ) ^ ((s1 i).exp - bias true - 55 : ℤ) =
        2 ^ 50 * 2 ^ ((s1 i).exp - 53 - bias true - 52 : ℤ) := by
      rw [← zpow_natCast, ← zpow_add₀ two_ne_zero]
      congr 1
      push_cast
      ring
    have hval : w * ulp true (s1 i) =
        ((2 ^ 52 : ℕ) + 0) * 2 ^ ((s1 i).exp - 53 - bias true - 52 : ℤ) := by
      rw [hw4, ulp, hpow, add_zero, ← mul_assoc]
      norm_num
    rw [hval]
    exact Norm.of_tail (q := ⟨_, _, _, _⟩) le_rfl (by decide) Tail.zero
  have hmod : 2 ^ 52 % lastBit true = 0 := Nat.mod_one _
  obtain ⟨-, hcarry, hfinal⟩ := exact_of_mod (by decide) hmod i.rm (alignSign (s1 i))
  rw [sumCorrect_of_pos hx hpos, hf]
  rintro ⟨e, m, inexact, hr, hy, -⟩
  obtain ⟨rfl, rfl, -⟩ := hr.unique (hnorm.roundsTo i.rm _)
  rw [(result_of_guard i ha hb hg).2 he, hfinal, Sig.expReal, hcarry, encode,
    if_neg (by simp only [infExp, if_true, Bool.toNat_false]; omega)] at hy
  have hfrac := congrArg (BitVec.extractLsb' 0 52) hy
  rw [word_frac, word_frac] at hfrac
  exact absurd hfrac (by decide)

end Normal

/-! ## The law of the adder -/

/-- An operand of a difference in the guard bit is not zero. -/
theorem not_guard_of_zero {i : AddIn} (hz : (isZero i.fmt i.a || isZero i.fmt i.b) = true) :
    ¬ GuardOnly i := by
  rintro ⟨hf, -, hn⟩
  simp only [hf, isZero, Bool.or_eq_true, Bool.and_eq_true, beq_iff_eq] at hz
  rcases hn with ⟨he, hfa, hfb⟩ | ⟨he, hfb, hfa⟩ <;> omega

theorem law_iff (i : AddIn) (ha : Finite i.fmt i.a) (hb : Finite i.fmt i.b) :
    SumLaw i ↔ ¬ (GuardOnly i ∧ InRange i) := by
  cases hz : isZero i.fmt i.a || isZero i.fmt i.b with
  | true =>
    exact iff_of_true (fun _ => sumCorrect_of_early ha hb hz) fun h => not_guard_of_zero hz h.1
  | false =>
    obtain ⟨hza, hzb⟩ := Bool.or_eq_false_iff.1 hz
    replace ha : Normal i.fmt i.a := ha.resolve_right (by simp [hza])
    replace hb : Normal i.fmt i.b := hb.resolve_right (by simp [hzb])
    obtain ⟨-, -, hmax⟩ := exp_of_normal i ha hb
    by_cases h4 : alignSum (s1 i) = 4
    · have hg := (alignSum_eq_four i).1 h4
      rw [and_iff_right hg, InRange, ← hmax, SumLaw, (result_of_guard i ha hb hg).1,
        decide_eq_false_iff_not]
      constructor
      · intro hlaw hr
        exact guard_incorrect i ha hb hg hr (hlaw (by omega))
      · intro hr hd
        omega
    · have hg : ¬ GuardOnly i := fun h => h4 ((alignSum_eq_four i).2 h)
      refine iff_of_true ?_ fun h => hg h.1
      by_cases h0 : alignSum (s1 i) = 0
      · exact fun _ => law_of_zero i ha hb h0
      · exact law_of_handed i ha hb h0 h4

/-- **What the adder computes.**  Four cycles after normal operands or zeros, an output
without `denorm` is their sum rounded once, with its flags, unless they are a power of two and
the double next below it, subtracted, in the range where the adder has an exponent for the
result. -/
theorem add_correct_iff (m : Add) (i j k l : AddIn) (ha : Finite i.fmt i.a)
    (hb : Finite i.fmt i.b) :
    let out := (Hw.run next m [i, j, k, l]).r4
    (out.denorm = false → SumCorrect i out) ↔ ¬ (GuardOnly i ∧ InRange i) :=
  law_iff i ha hb

/-- `1.5 + 1.5`. -/
def twice : AddIn := ⟨false, 0x3ff8000000000000#64, 0x3ff8000000000000#64, .nearest, true⟩

/-- `1` less the double next below it. -/
def oneSub : AddIn := ⟨true, 0x3ff0000000000000#64, 0x3fefffffffffffff#64, .nearest, true⟩

/-- An adder whose stages all hold one operation. -/
def only (i : AddIn) : Add := ⟨s1 i, s2 (s1 i), s3 (s2 (s1 i)), result i⟩

theorem add_correct_iff_twice :
    (Hw.run next (only twice) [twice, twice, twice, twice]).r4.y = 0x4008000000000000#64 ∧
      ((Hw.run next (only twice) [twice, twice, twice, twice]).r4.denorm = false →
        SumCorrect twice (Hw.run next (only twice) [twice, twice, twice, twice]).r4) :=
  ⟨by decide +kernel,
    (add_correct_iff (only twice) twice twice twice twice (.inl (by decide +kernel))
      (.inl (by decide +kernel))).2 (by decide +kernel)⟩

/-- The difference is `2 ^ -53`, the result half again as much as twice that. -/
theorem add_incorrect_oneSub :
    Normal oneSub.fmt oneSub.a ∧ Normal oneSub.fmt oneSub.b ∧
      (Hw.run next (only oneSub) [oneSub, oneSub, oneSub, oneSub]).r4.denorm = false ∧
      (Hw.run next (only oneSub) [oneSub, oneSub, oneSub, oneSub]).r4.y =
        0x3cb8000000000000#64 ∧
      ¬ SumCorrect oneSub (Hw.run next (only oneSub) [oneSub, oneSub, oneSub, oneSub]).r4 :=
  ⟨by decide +kernel, by decide +kernel, by decide +kernel, by decide +kernel,
    guard_incorrect oneSub (by decide +kernel) (by decide +kernel) (by decide +kernel)
      (by decide +kernel)⟩

end R9999.Fpu.Add
