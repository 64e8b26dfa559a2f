import Mathlib.Data.EReal.Operations
import R9999.Fpu.ConvertLaw

/-!
# The comparator

`fpu_compare.sv` orders two operands by their signs and the bits below, as unsigned numbers.
`ieee` is the extended real an operand stands for, and `compares` says that the answers
of the comparator are the order of these, but for the NaNs, which are unordered.

The bits below the sign grow with the magnitude (`absIeee_lt`), over the denormals, the normal
numbers and infinity alike; the sign turns the order around (`ieee_lt`).
-/

namespace R9999.Fpu

/-- The inputs of one cycle. -/
structure CmpIn where
  a : BitVec 64
  b : BitVec 64
  cond : BitVec 4
  fmt : Bool

namespace Cmp

section Operand

variable (fmt : Bool) (a : BitVec 64)

/-- `mag_a`: the bits below the sign. -/
def magBits : ℕ := if fmt then (a.extractLsb' 0 63).toNat else (a.extractLsb' 0 31).toNat

/-- `s_a`: a negative zero counts as positive. -/
def sign : Bool := if magBits fmt a = 0 then false else sgn fmt a

end Operand

section Wires

variable (i : CmpIn)

/-- `w_unordered`. -/
def unordered : Bool := isNan i.fmt i.a || isNan i.fmt i.b

/-- `w_any_snan`. -/
def anySnan : Bool := isSnan i.fmt i.a || isSnan i.fmt i.b

/-- `sign_eq`. -/
def signEq : Bool := sign i.fmt i.a == sign i.fmt i.b

/-- `w_lt_t`. -/
def ltT : Bool :=
  ((sign i.fmt i.a ^^ sign i.fmt i.b) && sign i.fmt i.a) ||
    (decide (magBits i.fmt i.a < magBits i.fmt i.b) && signEq i)

/-- `w_gt_t`. -/
def gtT : Bool :=
  ((sign i.fmt i.a ^^ sign i.fmt i.b) && sign i.fmt i.b) ||
    (decide (magBits i.fmt i.b < magBits i.fmt i.a) && signEq i)

/-- `w_lt`: between two negative numbers the order is the other way. -/
def lt : Bool := if sign i.fmt i.a && sign i.fmt i.b then gtT i else ltT i

/-- `w_eq`. -/
def eq : Bool := magBits i.fmt i.a == magBits i.fmt i.b && signEq i

/-- `w_ord_lt`. -/
def ordLt : Bool := lt i && !unordered i

/-- `w_ord_eq`. -/
def ordEq : Bool := eq i && !unordered i

/-- `t_y`: the predicate asks for less, equal and unordered with three bits. -/
def y : Bool :=
  (ordLt i && i.cond.getLsbD 2) || (ordEq i && i.cond.getLsbD 1) ||
    (unordered i && i.cond.getLsbD 0)

/-- `t_invalid`: a signalling predicate does not take any NaN. -/
def invalid : Bool := if i.cond.getLsbD 3 then unordered i else anySnan i

end Wires

end Cmp

/-! ## The order of the numbers -/

section Order

variable (fmt : Bool) (a : BitVec 64)

/-- The magnitude an operand stands for. -/
noncomputable def absIeee : EReal := if isInf fmt a then ⊤ else (absValue ℝ fmt a : EReal)

/-- The number an operand stands for. -/
noncomputable def ieee : EReal := if sgn fmt a then -absIeee fmt a else absIeee fmt a

/-- The exponent and the fraction of an operand as one number. -/
def code : ℕ := exp fmt a * 2 ^ 52 + frac fmt a

end Order

section Magnitude

variable {fmt : Bool} {a b : BitVec 64}

/-- The bits below the sign are the exponent above the fraction. -/
theorem magBits_eq (fmt : Bool) (a : BitVec 64) : Cmp.magBits fmt a * lastBit fmt = code fmt a := by
  cases fmt <;>
    simp only [Cmp.magBits, lastBit, code, exp, frac, if_true, Bool.false_eq_true, if_false,
      BitVec.extractLsb'_toNat, Nat.shiftRight_eq_div_pow] <;> omega

theorem magBits_lt : Cmp.magBits fmt a < Cmp.magBits fmt b ↔ code fmt a < code fmt b := by
  rw [← magBits_eq, ← magBits_eq, Nat.mul_lt_mul_right (lastBit_pos fmt)]

/-- A finite magnitude, in units of the last bit of a denormal. -/
def steps (e f : ℕ) : ℕ := if e = 0 then f else (2 ^ 52 + f) * 2 ^ (e - 1)

theorem absValue_steps (fmt : Bool) (a : BitVec 64) :
    absValue ℝ fmt a = steps (exp fmt a) (frac fmt a) * 2 ^ (1 - bias fmt - 52 : ℤ) := by
  rw [absValue, steps]
  split
  case isTrue => rfl
  case isFalse he =>
    have hp : ((exp fmt a : ℤ) - bias fmt - 52) =
        ((exp fmt a - 1 : ℕ) : ℤ) + (1 - bias fmt - 52 : ℤ) := by omega
    rw [mag, hp, zpow_add₀ two_ne_zero, zpow_natCast, sig]
    push_cast
    ring

/-- A larger exponent outweighs the fraction. -/
theorem steps_lt {e f e' f' : ℕ} (hf : f < 2 ^ 52) (hf' : f' < 2 ^ 52)
    (h : e * 2 ^ 52 + f < e' * 2 ^ 52 + f') : steps e f < steps e' f' := by
  rcases Nat.lt_or_ge e e' with he | he
  · have hup : steps e f < 2 ^ 52 * 2 ^ e := by
      rw [steps]
      split
      case isTrue h0 =>
        rw [h0]
        omega
      case isFalse h0 =>
        calc (2 ^ 52 + f) * 2 ^ (e - 1) < 2 ^ 52 * 2 * 2 ^ (e - 1) :=
              Nat.mul_lt_mul_of_pos_right (by omega) (Nat.two_pow_pos _)
          _ = 2 ^ 52 * 2 ^ e := by
              rw [Nat.mul_assoc, ← pow_succ', Nat.sub_one_add_one h0]
    have hdown : 2 ^ 52 * 2 ^ (e' - 1) ≤ steps e' f' := by
      rw [steps, if_neg (by omega)]
      exact Nat.mul_le_mul_right _ (by omega)
    calc steps e f < 2 ^ 52 * 2 ^ e := hup
      _ ≤ 2 ^ 52 * 2 ^ (e' - 1) :=
          Nat.mul_le_mul_left _ (Nat.pow_le_pow_right (by omega) (by omega))
      _ ≤ steps e' f' := hdown
  · have heq : e = e' := by omega
    subst heq
    have hff : f < f' := by omega
    unfold steps
    split
    · exact hff
    · exact Nat.mul_lt_mul_of_pos_right (by omega) (Nat.two_pow_pos _)

/-- The numbers that are not NaNs have the smaller exponents, or are infinite. -/
theorem isInf_iff (h : isNan fmt a = false) :
    isInf fmt a = true ↔ infExp fmt * 2 ^ 52 ≤ code fmt a := by
  have hle := exp_le fmt a
  have hf := frac_lt fmt a
  simp only [isNan, isInf, code, Bool.and_eq_false_iff, Bool.and_eq_true, beq_iff_eq,
    beq_eq_false_iff_ne, bne_eq_false_iff_eq, ne_eq] at h ⊢
  omega

/-- Infinity has the largest encoding. -/
theorem code_le (h : isNan fmt a = false) : code fmt a ≤ infExp fmt * 2 ^ 52 := by
  have hle := exp_le fmt a
  have hf := frac_lt fmt a
  simp only [isNan, code, Bool.and_eq_false_iff, beq_eq_false_iff_ne, bne_eq_false_iff_eq,
    ne_eq] at h ⊢
  omega

/-- Operands of one encoding have one magnitude. -/
theorem absIeee_congr (h : code fmt a = code fmt b) : absIeee fmt a = absIeee fmt b := by
  have hf := frac_lt fmt a
  have hf' := frac_lt fmt b
  have he : exp fmt a = exp fmt b := by rw [code, code] at h; omega
  have hfr : frac fmt a = frac fmt b := by rw [code, code] at h; omega
  rw [absIeee, absIeee, isInf, isInf, absValue_steps, absValue_steps, he, hfr]

/-- **The encoding grows with the magnitude.** -/
theorem absIeee_lt_of_code (ha : isNan fmt a = false) (hb : isNan fmt b = false)
    (h : code fmt a < code fmt b) : absIeee fmt a < absIeee fmt b := by
  have hia : isInf fmt a = false := by
    have hle := code_le hb
    rw [← Bool.not_eq_true, isInf_iff ha]
    omega
  rw [absIeee, absIeee, hia, if_neg Bool.false_ne_true]
  split
  · exact EReal.coe_lt_top _
  · rw [EReal.coe_lt_coe_iff, absValue_steps, absValue_steps]
    have hs : steps (exp fmt a) (frac fmt a) < steps (exp fmt b) (frac fmt b) :=
      steps_lt (frac_lt fmt a) (frac_lt fmt b) h
    exact mul_lt_mul_of_pos_right (by exact_mod_cast hs) (zpow_pos two_pos _)

theorem absIeee_lt (ha : isNan fmt a = false) (hb : isNan fmt b = false) :
    absIeee fmt a < absIeee fmt b ↔ code fmt a < code fmt b := by
  rcases lt_trichotomy (code fmt a) (code fmt b) with h | h | h
  · exact iff_of_true (absIeee_lt_of_code ha hb h) h
  · exact iff_of_false (absIeee_congr h).not_lt h.not_lt
  · exact iff_of_false (absIeee_lt_of_code hb ha h).asymm h.asymm

theorem absIeee_nonneg (fmt : Bool) (a : BitVec 64) : 0 ≤ absIeee fmt a := by
  rw [absIeee]
  split
  · exact le_top
  · rw [absValue_steps, EReal.coe_nonneg]
    positivity

/-- Only the zeros have the encoding zero. -/
theorem absIeee_eq_zero (ha : isNan fmt a = false) : absIeee fmt a = 0 ↔ code fmt a = 0 := by
  have hz : absIeee fmt 0#64 = 0 := by
    rw [absIeee, absValue_steps]
    cases fmt <;> simp [isInf, exp, frac, infExp, steps]
  have hc : code fmt 0#64 = 0 := by cases fmt <;> rfl
  have hn : isNan fmt 0#64 = false := by cases fmt <;> rfl
  constructor
  · intro h
    by_contra hne
    have hlt := absIeee_lt_of_code hn ha (by omega : code fmt 0#64 < code fmt a)
    rw [hz, h] at hlt
    exact lt_irrefl _ hlt
  · intro h
    rw [← hz]
    exact absIeee_congr (h.trans hc.symm)

/-- The encoding with its sign. -/
def key (fmt : Bool) (a : BitVec 64) : ℤ := if sgn fmt a then -code fmt a else code fmt a

/-- **The order of the numbers is that of the signed encodings.** -/
theorem ieee_lt (ha : isNan fmt a = false) (hb : isNan fmt b = false) :
    ieee fmt a < ieee fmt b ↔ key fmt a < key fmt b := by
  have hna := absIeee_nonneg fmt a
  have hnb := absIeee_nonneg fmt b
  have hza := absIeee_eq_zero ha
  have hzb := absIeee_eq_zero hb
  unfold ieee key
  cases sgn fmt a <;> cases sgn fmt b <;> simp only [if_true, Bool.false_eq_true, if_false]
  · rw [absIeee_lt ha hb, Int.ofNat_lt]
  · -- a positive number is not below a negative one
    refine iff_of_false (not_lt_of_ge ?_) (by omega)
    exact (EReal.neg_le_neg_iff.2 hnb).trans (neg_zero.trans_le hna)
  · -- a negative number is below a positive one, unless both are zeros
    rw [lt_iff_le_and_ne]
    have hle : -absIeee fmt a ≤ absIeee fmt b :=
      ((EReal.neg_le_neg_iff.2 hna).trans_eq neg_zero).trans hnb
    have hne : -absIeee fmt a = absIeee fmt b ↔ code fmt a = 0 ∧ code fmt b = 0 := by
      rw [← hza, ← hzb]
      constructor
      · intro h
        have hb0 : absIeee fmt b = 0 :=
          le_antisymm (h ▸ (EReal.neg_le_neg_iff.2 hna).trans_eq neg_zero) hnb
        rw [hb0, EReal.neg_eq_zero_iff] at h
        exact ⟨h, hb0⟩
      · rintro ⟨h, h'⟩
        rw [h, h', neg_zero]
    rw [and_iff_right hle, ne_eq, hne]
    omega
  · rw [EReal.neg_lt_neg_iff, absIeee_lt hb ha]
    omega

end Magnitude

/-! ## The answers of the comparator -/

section Answers

variable (i : CmpIn)

/-- The first operand is the smaller. -/
def Less : Prop :=
  isNan i.fmt i.a = false ∧ isNan i.fmt i.b = false ∧ ieee i.fmt i.a < ieee i.fmt i.b

/-- The operands are equal. -/
def Equal : Prop :=
  isNan i.fmt i.a = false ∧ isNan i.fmt i.b = false ∧ ieee i.fmt i.a = ieee i.fmt i.b

/-- The first operand is the larger. -/
def Greater : Prop :=
  isNan i.fmt i.a = false ∧ isNan i.fmt i.b = false ∧ ieee i.fmt i.b < ieee i.fmt i.a

/-- An operand is a NaN. -/
def Unordered : Prop := isNan i.fmt i.a = true ∨ isNan i.fmt i.b = true

theorem sign_eq (fmt : Bool) (a : BitVec 64) :
    Cmp.sign fmt a = (sgn fmt a && decide (code fmt a ≠ 0)) := by
  have h0 : Cmp.magBits fmt a = 0 ↔ code fmt a = 0 := by
    rw [← magBits_eq, mul_eq_zero, or_iff_left (lastBit_pos fmt).ne']
  rw [Cmp.sign]
  simp only [h0]
  by_cases h : code fmt a = 0 <;> simp [h]

/-- The circuit compares the signed encodings. -/
theorem lt_key : Cmp.lt i = true ↔ key i.fmt i.a < key i.fmt i.b := by
  simp only [Cmp.lt, Cmp.gtT, Cmp.ltT, Cmp.signEq, magBits_lt, sign_eq, key]
  by_cases ha : code i.fmt i.a = 0 <;> by_cases hb : code i.fmt i.b = 0 <;>
    cases sgn i.fmt i.a <;> cases sgn i.fmt i.b <;> simp [ha, hb] <;> omega

theorem eq_key : Cmp.eq i = true ↔ key i.fmt i.a = key i.fmt i.b := by
  have hm : Cmp.magBits i.fmt i.a = Cmp.magBits i.fmt i.b ↔ code i.fmt i.a = code i.fmt i.b := by
    rw [← magBits_eq, ← magBits_eq, Nat.mul_left_inj (lastBit_pos i.fmt).ne']
  rw [Cmp.eq, Bool.and_eq_true, beq_iff_eq, hm]
  simp only [Cmp.signEq, sign_eq, key]
  by_cases ha : code i.fmt i.a = 0 <;> by_cases hb : code i.fmt i.b = 0 <;>
    cases sgn i.fmt i.a <;> cases sgn i.fmt i.b <;> simp [ha, hb] <;> omega

theorem unordered_iff : Cmp.unordered i = true ↔ Unordered i := by
  rw [Cmp.unordered, Bool.or_eq_true, Unordered]

theorem not_unordered_iff :
    Cmp.unordered i = false ↔ isNan i.fmt i.a = false ∧ isNan i.fmt i.b = false := by
  rw [Cmp.unordered, Bool.or_eq_false_iff]

/-- `w_ord_lt` is the order of the numbers. -/
theorem less_iff : Cmp.ordLt i = true ↔ Less i := by
  rw [Cmp.ordLt, Bool.and_eq_true, Bool.not_eq_true', not_unordered_iff, lt_key, Less, and_comm,
    and_assoc]
  exact and_congr_right fun ha => and_congr_right fun hb => (ieee_lt ha hb).symm

/-- `w_ord_eq` is the equality of the numbers. -/
theorem equal_iff : Cmp.ordEq i = true ↔ Equal i := by
  rw [Cmp.ordEq, Bool.and_eq_true, Bool.not_eq_true', not_unordered_iff, eq_key, Equal, and_comm,
    and_assoc]
  refine and_congr_right fun ha => and_congr_right fun hb => ?_
  rw [le_antisymm_iff, le_antisymm_iff, ← not_lt, ← not_lt, ← not_lt, ← not_lt, ieee_lt ha hb,
    ieee_lt hb ha]

/-- What a compare answers. -/
structure Compares (y invalid : Bool) : Prop where
  /-- The predicate. -/
  answer : y = true ↔
    Less i ∧ i.cond.getLsbD 2 = true ∨ Equal i ∧ i.cond.getLsbD 1 = true ∨
      Unordered i ∧ i.cond.getLsbD 0 = true
  /-- The exception. -/
  raises : invalid = true ↔
    isSnan i.fmt i.a = true ∨ isSnan i.fmt i.b = true ∨ i.cond.getLsbD 3 = true ∧ Unordered i

/-- **The comparator answers by the order of the numbers.** -/
theorem compares : Compares i (Cmp.y i) (Cmp.invalid i) := by
  constructor
  · rw [Cmp.y]
    simp only [Bool.or_eq_true, Bool.and_eq_true, less_iff, equal_iff, unordered_iff, or_assoc]
  · have hs : Cmp.anySnan i = true → Unordered i := by
      rw [Cmp.anySnan, Bool.or_eq_true]
      exact Or.imp (fun h => ((Bool.and_eq_true _ _).mp h).1)
        fun h => ((Bool.and_eq_true _ _).mp h).1
    rw [Cmp.invalid]
    cases h3 : i.cond.getLsbD 3 with
    | true =>
      rw [if_pos rfl, unordered_iff, ← or_assoc, ← Bool.or_eq_true]
      exact ⟨fun h => .inr ⟨rfl, h⟩, fun h => h.elim hs And.right⟩
    | false =>
      rw [if_neg Bool.false_ne_true, Cmp.anySnan, Bool.or_eq_true]
      simp only [Bool.false_eq_true, false_and, or_false]

/-- Exactly one of the four answers is right. -/
theorem one_answer :
    (Less i ∧ ¬ Equal i ∧ ¬ Greater i ∧ ¬ Unordered i) ∨
    (¬ Less i ∧ Equal i ∧ ¬ Greater i ∧ ¬ Unordered i) ∨
    (¬ Less i ∧ ¬ Equal i ∧ Greater i ∧ ¬ Unordered i) ∨
    (¬ Less i ∧ ¬ Equal i ∧ ¬ Greater i ∧ Unordered i) := by
  unfold Less Equal Greater Unordered
  cases isNan i.fmt i.a <;> cases isNan i.fmt i.b <;> simp
  rcases lt_trichotomy (ieee i.fmt i.a) (ieee i.fmt i.b) with h | h | h
  · exact .inl ⟨h, h.ne, h.le⟩
  · exact .inr (.inl ⟨h.ge, h, h.le⟩)
  · exact .inr (.inr ⟨h.le, h.ne', h⟩)

end Answers

end R9999.Fpu
