import R9999.Exec.Retire
import R9999.Iss.Integer

/-!
# The units of the datapath

What the adders, the shifter, the multiplier and the divider compute, in the terms of the
interpreter.  A signed 32-bit multiply takes the whole registers, so that its product is
that of their low words only when the two products agree (`MultOk`).
-/

namespace R9999

namespace Exec

open Iss (lo32 sext32 sext64 flag)

section Adders

variable {w : Nat} (a b : BitVec w)

theorem csaSum_eq (cin : BitVec w) : csaSum a b cin = a + b + cin := Hw.carry_add_save a b cin

theorem csaSum_zero : csaSum a b 0 = a + b := by rw [csaSum_eq]; exact BitVec.add_zero _

theorem csaSum_not : csaSum a (~~~b) 1 = a - b := by
  rw [csaSum_eq, BitVec.sub_eq_add_neg, BitVec.neg_eq_not_add, BitVec.add_assoc]
  rfl

variable (u : Uop) (a b : BitVec 64)

theorem add32_regs (hs : subtracts32 u = false) (hi : immediate32 u = false) :
    add32 u a b = lo32 a + lo32 b := by
  simp only [add32, ovfSrcB32, hs, hi, Bool.false_eq_true, if_false]
  exact csaSum_zero _ _

theorem add32_imm (hs : subtracts32 u = false) (hi : immediate32 u = true) :
    add32 u a b = lo32 a + u.imm.signExtend 32 := by
  simp only [add32, ovfSrcB32, hs, hi, Bool.false_eq_true, if_false, if_true]
  exact csaSum_zero _ _

theorem add32_sub (hs : subtracts32 u = true) : add32 u a b = lo32 a - lo32 b := by
  simp only [add32, hs, if_true]
  exact csaSum_not _ _

theorem add64_regs (hs : subtracts64 u = false) (hi : immediate64 u = false) :
    add64 u a b = a + b := by
  simp only [add64, ovfSrcB64, hs, hi, Bool.false_eq_true, if_false]
  exact csaSum_zero _ _

theorem add64_imm (hs : subtracts64 u = false) (hi : immediate64 u = true) :
    add64 u a b = a + simm u := by
  simp only [add64, ovfSrcB64, hs, hi, Bool.false_eq_true, if_false, if_true]
  exact csaSum_zero _ _

theorem add64_sub (hs : subtracts64 u = true) : add64 u a b = a - b := by
  simp only [add64, hs, if_true]
  exact csaSum_not _ _

end Adders

section Shifter

variable (a : BitVec 64) (d : BitVec 6)

theorem shiftRight_left : shiftRight true false a d = a <<< d.toNat := by
  have hd := d.isLt
  have hdist : ((64 : BitVec 7) - d.setWidth 7).toNat = 64 - d.toNat := by
    rw [BitVec.toNat_sub, BitVec.toNat_setWidth]
    show (2 ^ 7 - d.toNat % 2 ^ 7 + 64) % 2 ^ 7 = 64 - d.toNat
    omega
  show ((a ++ (0 : BitVec 64)) >>> ((64 : BitVec 7) - d.setWidth 7).toNat).setWidth 64 = _
  rw [hdist]
  exact Hw.funnel_left a d.toNat (by omega)

theorem distance_toNat : (d.setWidth 7).toNat = d.toNat := by
  rw [BitVec.toNat_setWidth]
  omega

theorem shiftRight_right : shiftRight false false a d = a >>> d.toNat := by
  have hzero : (BitVec.ofBool false).signExtend 64 = 0 := by decide
  show (((BitVec.ofBool false).signExtend 64 ++ a) >>> (d.setWidth 7).toNat).setWidth 64 = _
  rw [distance_toNat, hzero]
  exact Hw.funnel_right a d.toNat

theorem shiftRight_signed : shiftRight false true a d = a.sshiftRight d.toNat := by
  show (((BitVec.ofBool (true && a.msb)).signExtend 64 ++ a) >>>
    (d.setWidth 7).toNat).setWidth 64 = _
  rw [distance_toNat, Bool.true_and]
  exact Hw.funnel_signed a d.toNat (by omega)

variable (amt : BitVec 5)

theorem amt_toNat : (amt.setWidth 6).toNat = amt.toNat := by
  rw [BitVec.toNat_setWidth]
  omega

/-- The low word of a word shifted left. -/
theorem shift32_left : shift32 a true false amt = sext32 (lo32 a <<< amt.toNat) := by
  have hlow : (((lo32 a).setWidth 64 : BitVec 64) <<< amt.toNat).setWidth 32 =
      lo32 a <<< amt.toNat := by
    apply BitVec.eq_of_getLsbD_eq
    intro i hi
    have hi64 : i < 64 := by omega
    simp only [BitVec.getLsbD_setWidth, BitVec.getLsbD_shiftLeft]
    by_cases hlt : i < amt.toNat
    · simp [hlt]
    · have hsub : i - amt.toNat < 64 := by omega
      simp [hi, hi64, hlt, hsub]
  show signExtend32 ((shiftRight true false ((lo32 a).setWidth 64) (amt.setWidth 6)).setWidth 32) =
    _
  rw [shiftRight_left, amt_toNat, hlow]
  rfl

theorem shift32_right : shift32 a false false amt = sext64 (lo32 a >>> amt.toNat) := by
  have hlow : (((lo32 a).setWidth 64 : BitVec 64) >>> amt.toNat).setWidth 32 =
      lo32 a >>> amt.toNat := by
    apply BitVec.eq_of_getLsbD_eq
    intro i hi
    simp only [BitVec.getLsbD_setWidth, BitVec.getLsbD_ushiftRight]
    by_cases hlt : amt.toNat + i < 64
    · simp [hi, hlt]
    · have hout : (lo32 a).getLsbD (amt.toNat + i) = false :=
        BitVec.getLsbD_of_ge _ _ (by omega)
      simp [hi, hout]
  show signExtend32 ((shiftRight false false ((lo32 a).setWidth 64)
    (amt.setWidth 6)).setWidth 32) = _
  rw [shiftRight_right, amt_toNat, hlow]
  rfl

theorem shift32_signed : shift32 a false true amt = sext32 ((lo32 a).sshiftRight amt.toNat) := by
  have hamt := amt.isLt
  have hlow : (((lo32 a).signExtend 64 : BitVec 64).sshiftRight amt.toNat).setWidth 32 =
      (lo32 a).sshiftRight amt.toNat := by
    apply BitVec.eq_of_getLsbD_eq
    intro i hi
    have h64 : amt.toNat + i < 64 := by omega
    have hge64 : ¬ 64 ≤ i := by omega
    have hge32 : ¬ 32 ≤ i := by omega
    simp only [BitVec.getLsbD_setWidth, BitVec.getLsbD_sshiftRight, BitVec.getLsbD_signExtend]
    by_cases hlt : amt.toNat + i < 32 <;> simp [hi, h64, hge64, hge32, hlt]
  show signExtend32 ((shiftRight false true ((lo32 a).signExtend 64)
    (amt.setWidth 6)).setWidth 32) = _
  rw [shiftRight_signed, amt_toNat, hlow]
  rfl

end Shifter

section Multiplier

variable (a b : BitVec 64)

/-- The product of the registers is that of their low words. -/
def MultOk : Prop := a * b = (lo32 a).signExtend 64 * (lo32 b).signExtend 64

instance : Decidable (MultOk a b) := inferInstanceAs (Decidable (_ = _))

theorem append_hi (x y : BitVec 64) : (x ++ y : BitVec (64 + 64)).extractLsb' 64 64 = x := by
  apply BitVec.eq_of_getLsbD_eq
  intro i hi
  have hge : ¬ 64 + i < 64 := by omega
  rw [BitVec.getLsbD_extractLsb', BitVec.getLsbD_append, if_neg hge, Nat.add_sub_cancel_left]
  simp only [hi, decide_true, Bool.true_and]

theorem append_lo (x y : BitVec 64) : (x ++ y : BitVec (64 + 64)).extractLsb' 0 64 = y := by
  apply BitVec.eq_of_getLsbD_eq
  intro i hi
  rw [BitVec.getLsbD_extractLsb', BitVec.getLsbD_append, Nat.zero_add, if_pos hi]
  simp only [hi, decide_true, Bool.true_and]

/-- An extended word, cut to its width again. -/
theorem setWidth_signExtend {w v : Nat} (x : BitVec w) (h : w ≤ v) :
    (x.signExtend v).setWidth w = x := by
  apply BitVec.eq_of_getLsbD_eq
  intro i hi
  have hiv : i < v := by omega
  rw [BitVec.getLsbD_setWidth, BitVec.getLsbD_signExtend, if_pos hi]
  simp only [hi, hiv, decide_true, Bool.true_and]

theorem setWidth_zeroExtend {w v : Nat} (x : BitVec w) (h : w ≤ v) :
    (x.setWidth v).setWidth w = x := by
  rw [BitVec.setWidth_setWidth_of_le _ h, BitVec.setWidth_eq]

/-- The words of the lower half of a product. -/
theorem words_eq {t : BitVec 128} {y : BitVec 64} (h : t.setWidth 64 = y) :
    t.extractLsb' 32 32 = (y >>> 32).setWidth 32 ∧ t.extractLsb' 0 32 = y.setWidth 32 := by
  subst h
  refine ⟨?_, ?_⟩
  · apply BitVec.eq_of_getLsbD_eq
    intro i hi
    have hi64 : 32 + i < 64 := by omega
    simp [hi, hi64]
  · apply BitVec.eq_of_getLsbD_eq
    intro i hi
    simp [hi]

/-- HI and LO from the words of a 64-bit product. -/
def wordPair (y : BitVec 64) : BitVec 128 :=
  sext64 ((y >>> 32).setWidth 32) ++ sext64 (y.setWidth 32)

theorem mulY_mult : mulY true true a b = wordPair (a * b) := by
  have hlow : (a.signExtend 128 * b.signExtend 128).setWidth 64 = a * b := by
    rw [BitVec.setWidth_mul _ _ (by decide), setWidth_signExtend _ (by decide),
      setWidth_signExtend _ (by decide)]
  have hwords := words_eq hlow
  show ((a.signExtend 128 * b.signExtend 128).extractLsb' 32 32).signExtend 64 ++
    ((a.signExtend 128 * b.signExtend 128).extractLsb' 0 32).signExtend 64 =
      (wordPair (a * b) : BitVec (64 + 64))
  rw [hwords.1, hwords.2]
  rfl

theorem mulY_multu :
    mulY false true a b = wordPair ((lo32 a).setWidth 64 * (lo32 b).setWidth 64) := by
  have hlow : (((lo32 a).setWidth 64).setWidth 128 * ((lo32 b).setWidth 64).setWidth 128 :
      BitVec 128).setWidth 64 = (lo32 a).setWidth 64 * (lo32 b).setWidth 64 := by
    rw [BitVec.setWidth_mul _ _ (by decide), setWidth_zeroExtend _ (by decide),
      setWidth_zeroExtend _ (by decide)]
  have hwords := words_eq hlow
  show ((((lo32 a).setWidth 64).setWidth 128 * ((lo32 b).setWidth 64).setWidth 128 :
      BitVec 128).extractLsb' 32 32).signExtend 64 ++
    ((((lo32 a).setWidth 64).setWidth 128 * ((lo32 b).setWidth 64).setWidth 128 :
      BitVec 128).extractLsb' 0 32).signExtend 64 =
        (wordPair ((lo32 a).setWidth 64 * (lo32 b).setWidth 64) : BitVec (64 + 64))
  rw [hwords.1, hwords.2]
  rfl

/-- The lower words of the products of the registers and of their low words are the same. -/
theorem mul_word : (a * b).setWidth 32 =
    ((lo32 a).signExtend 64 * (lo32 b).signExtend 64).setWidth 32 := by
  rw [BitVec.setWidth_mul _ _ (by decide), BitVec.setWidth_mul _ _ (by decide),
    setWidth_signExtend _ (by decide), setWidth_signExtend _ (by decide)]
  rfl

end Multiplier

section Divider

open Divider (run_completes divide_eq expected)

variable (a b : BitVec 64)

theorem extend_word_signed : extend true true a = (lo32 a).signExtend 64 := rfl

theorem extend_word : extend true false a = (lo32 a).setWidth 64 := rfl

theorem extend_setWidth (isSignedDiv : Bool) : (extend true isSignedDiv b).setWidth 32 = lo32 b := by
  cases isSignedDiv with
  | false => rw [extend_word, setWidth_zeroExtend _ (by decide)]
  | true => rw [extend_word_signed, setWidth_signExtend _ (by decide)]

theorem extend_ne_zero (isSignedDiv : Bool) (hb : lo32 b ≠ 0) : extend true isSignedDiv b ≠ 0 := by
  intro h
  have hword := extend_setWidth b isSignedDiv
  rw [h] at hword
  exact hb hword.symm

/-- A divide by anything but zero, as the remainder and the quotient. -/
theorem divide_of_ne_zero {is32b isSignedDiv : Bool} (hb : extend is32b isSignedDiv b ≠ 0) :
    divide a b is32b isSignedDiv = expected a b is32b isSignedDiv := by
  apply divide_eq
  rw [Nat.pos_iff_ne_zero]
  intro hzero
  exact hb ((Divider.magnitude_eq_zero isSignedDiv _).mp (BitVec.eq_of_toNat_eq hzero))

theorem divide_div (hb : lo32 b ≠ 0) :
    divide a b true true =
      sext64 (lo32 (((lo32 a).signExtend 64).srem ((lo32 b).signExtend 64))) ++
        sext64 (lo32 (((lo32 a).signExtend 64).sdiv ((lo32 b).signExtend 64))) :=
  divide_of_ne_zero a b (extend_ne_zero b true hb)

theorem divide_divu (hb : lo32 b ≠ 0) :
    divide a b true false = sext64 (lo32 a % lo32 b) ++ sext64 (lo32 a / lo32 b) := by
  have hnat (x : BitVec 32) : (x.setWidth 64).toNat = x.toNat := by
    rw [BitVec.toNat_setWidth]
    omega
  -- a number that fits into a word
  have hwide (x : BitVec 32) (y : BitVec 64) (h : y.toNat = x.toNat) : lo32 y = x := by
    apply BitVec.eq_of_toNat_eq
    rw [lo32, BitVec.toNat_setWidth, h]
    omega
  have hquot : lo32 ((lo32 a).setWidth 64 / (lo32 b).setWidth 64) = lo32 a / lo32 b := by
    rw [hwide (lo32 a / lo32 b) ((lo32 a).setWidth 64 / (lo32 b).setWidth 64)]
    simp only [BitVec.toNat_udiv, hnat]
  have hrem : lo32 ((lo32 a).setWidth 64 % (lo32 b).setWidth 64) = lo32 a % lo32 b := by
    rw [hwide (lo32 a % lo32 b) ((lo32 a).setWidth 64 % (lo32 b).setWidth 64)]
    simp only [BitVec.toNat_umod, hnat]
  rw [← hquot, ← hrem]
  exact divide_of_ne_zero a b (extend_ne_zero b false hb)

theorem divide_ddiv (hb : b ≠ 0) : divide a b false true = a.srem b ++ a.sdiv b :=
  divide_of_ne_zero a b hb

theorem divide_ddivu (hb : b ≠ 0) : divide a b false false = a % b ++ a / b :=
  divide_of_ne_zero a b hb

end Divider

end Exec

end R9999
