import R9999.Fpu.Round
import R9999.Hw.Run

/-!
# The multiplier

`fpu_mul.sv`: four stages, which unpack the operands and settle the special cases, multiply
the significands, normalize the product, and round and pack it.

`norm_of_prod` connects the third stage to the product of the operands; `mul_correct` is
stated of the pipeline, four cycles after the operands.
-/

open Hw (RoundMode Rounds Tail)

namespace R9999.Fpu

/-- The inputs of one cycle. -/
structure MulIn where
  a : BitVec 64
  b : BitVec 64
  rm : RoundMode
  fmt : Bool

/-- The registers that go along with an operation: the result it has without arithmetic, if
any, and the flags the operands raise. -/
structure OpMeta where
  sign : Bool
  fmt : Bool
  rm : RoundMode
  evalid : Bool
  special : Bool
  inv : Bool
  inden : Bool
  early : BitVec 64

namespace Mul

/-- `r1`. -/
structure R1 where
  op : OpMeta
  siga : ℕ
  sigb : ℕ
  expa : ℕ
  expb : ℕ

/-- `r2`. -/
structure R2 where
  op : OpMeta
  prod : ℕ
  expa : ℕ
  expb : ℕ

/-- `r3`. -/
structure R3 where
  op : OpMeta
  sig : Sig
  ebase : ℤ

/-- Unpack the operands and settle the special cases. -/
def s1 (i : MulIn) : R1 :=
  let sign := sgn i.fmt i.a ^^ sgn i.fmt i.b
  let anyNan := isNan i.fmt i.a || isNan i.fmt i.b
  let infXZero := (isInf i.fmt i.a && isZero i.fmt i.b) || (isInf i.fmt i.b && isZero i.fmt i.a)
  let sp := special i.fmt i.a i.b
  { op :=
      { sign, fmt := i.fmt, rm := i.rm
        evalid := sp || isZero i.fmt i.a || isZero i.fmt i.b
        special := sp
        inv := isSnan i.fmt i.a || isSnan i.fmt i.b || infXZero
        inden := inDenorm i.fmt i.a i.b
        early :=
          if sp then if anyNan || infXZero then defNan i.fmt else infinity i.fmt sign
          else zero i.fmt sign }
    siga := sig i.fmt i.a, sigb := sig i.fmt i.b
    expa := exp i.fmt i.a, expb := exp i.fmt i.b }

/-- Multiply the significands. -/
def s2 (r : R1) : R2 :=
  { op := r.op, prod := r.siga * r.sigb, expa := r.expa, expb := r.expb }

/-- Normalize the product. -/
def s3 (r : R2) : R3 :=
  let top := r.prod.testBit 105
  { op := r.op
    sig :=
      { sig := if top then r.prod / 2 ^ 53 % 2 ^ 53 else r.prod / 2 ^ 52 % 2 ^ 53
        gd := if top then r.prod.testBit 52 else r.prod.testBit 51
        rd := if top then r.prod.testBit 51 else r.prod.testBit 50
        sd := if top then r.prod % 2 ^ 51 != 0 else r.prod % 2 ^ 50 != 0 }
    ebase := r.expa + r.expb + top.toNat - bias r.op.fmt }

/-- Round and pack. -/
def s4 (r : R3) : Out :=
  let o := r.op
  let ovf := !o.evalid && r.sig.overflow o.fmt o.rm o.sign r.ebase
  let udf := !o.evalid && r.sig.underflow o.fmt o.rm o.sign r.ebase
  { y :=
      if o.evalid then o.early
      else if ovf then Sig.ovfY o.fmt o.rm o.sign
      else r.sig.normY o.fmt o.rm o.sign r.ebase
    denorm := !o.special && (o.inden || udf)
    fflags := ⟨o.inv, false, ovf, udf, !o.evalid && (r.sig.inexact o.fmt || ovf)⟩ }

end Mul

/-- The registers of the multiplier. -/
structure Mul where
  r1 : Mul.R1
  r2 : Mul.R2
  r3 : Mul.R3
  r4 : Out

namespace Mul

/-- One cycle. -/
def next (m : Mul) (i : MulIn) : Mul :=
  { r1 := s1 i, r2 := s2 m.r1, r3 := s3 m.r2, r4 := s4 m.r3 }

/-- What the multiplier makes of its operands. -/
def result (i : MulIn) : Out := s4 (s3 (s2 (s1 i)))

/-- The result comes out four cycles later. -/
theorem run_result (m : Mul) (i j k l : MulIn) :
    (Hw.run next m [i, j, k, l]).r4 = result i := rfl

/-! ## The product -/

section Product

variable {fmt : Bool} {a b : BitVec 64}

/-- The product of two significands has its leading one in one of two places. -/
theorem prod_bounds (fmt : Bool) (a b : BitVec 64) :
    2 ^ 104 ≤ sig fmt a * sig fmt b ∧ sig fmt a * sig fmt b < 2 ^ 106 := by
  obtain ⟨ha, ha'⟩ := sig_bounds fmt a
  obtain ⟨hb, hb'⟩ := sig_bounds fmt b
  constructor
  · calc 2 ^ 104 = 2 ^ 52 * 2 ^ 52 := by norm_num
      _ ≤ sig fmt a * sig fmt b := Nat.mul_le_mul ha hb
  · calc sig fmt a * sig fmt b < 2 ^ 53 * 2 ^ 53 := Nat.mul_lt_mul'' ha' hb'
      _ = 2 ^ 106 := by norm_num

theorem mag_mul (fmt : Bool) (a b : BitVec 64) :
    mag ℚ fmt a * mag ℚ fmt b =
      ((sig fmt a * sig fmt b : ℕ) + 0) * 2 ^ ((exp fmt a + exp fmt b - 2 * bias fmt - 104 : ℤ)) := by
  have hpow : (2 : ℚ) ^ ((exp fmt a + exp fmt b - 2 * bias fmt - 104 : ℤ)) =
      2 ^ ((exp fmt a : ℤ) - bias fmt - 52) * 2 ^ ((exp fmt b : ℤ) - bias fmt - 52) := by
    rw [← zpow_add₀ two_ne_zero]
    congr 1
    ring
  rw [hpow, mag, mag, Nat.cast_mul]
  ring

/-- The third stage normalizes the product it is given. -/
theorem s3_norm (r : R2) (hl : 2 ^ 104 ≤ r.prod) (hh : r.prod < 2 ^ 106) :
    Norm r.op.fmt (s3 r).sig (s3 r).ebase
      (((r.prod : ℚ) + 0) * 2 ^ (r.expa + r.expb - 2 * bias r.op.fmt - 104 : ℤ)) := by
  have hbit := Nat.testBit_eq_decide_div_mod_eq (x := r.prod) (i := 105)
  cases ht : r.prod.testBit 105 with
  | true =>
    rw [ht, eq_comm, decide_eq_true_eq] at hbit
    simp only [s3, ht, if_true, Nat.mod_eq_of_lt (by omega : r.prod / 2 ^ 53 < 2 ^ 53)]
    exact Norm.of_testBit le_rfl one_pos (by simp) (by omega) hh (by simp; ring)
  | false =>
    rw [ht, eq_comm, decide_eq_false_iff_not] at hbit
    simp only [s3, ht, Bool.false_eq_true, if_false,
      Nat.mod_eq_of_lt (by omega : r.prod / 2 ^ 52 < 2 ^ 53)]
    exact Norm.of_testBit le_rfl one_pos (by simp) hl (by omega) (by simp; ring)

/-- **The third stage is handed the product.** -/
theorem norm_of_prod (i : MulIn) :
    Norm i.fmt (s3 (s2 (s1 i))).sig (s3 (s2 (s1 i))).ebase
      (mag ℚ i.fmt i.a * mag ℚ i.fmt i.b) := by
  obtain ⟨hl, hh⟩ := prod_bounds i.fmt i.a i.b
  rw [mag_mul]
  exact s3_norm (s2 (s1 i)) hl hh

end Product

section Result

variable (i : MulIn)

/-- Normal operands have no early result. -/
theorem op_of_normal (hn : Normal i.fmt i.a ∧ Normal i.fmt i.b) :
    (s1 i).op =
      ⟨sgn i.fmt i.a ^^ sgn i.fmt i.b, i.fmt, i.rm, false, false, false, false,
        zero i.fmt (sgn i.fmt i.a ^^ sgn i.fmt i.b)⟩ := by
  obtain ⟨hs, hd, hza, hzb⟩ := normal_both_iff.1 hn
  obtain ⟨⟨-, -, hna, hia⟩, -, -, hnb, hib⟩ := hn.imp (normal_iff _ _).1 (normal_iff _ _).1
  simp [s1, hs, hd, hza, hzb, isSnan, hna, hnb, hia, hib]

/-- The last stage on an operation that has no result yet. -/
theorem s4_of_arith (r : R3) {neg fmt : Bool} {rm : RoundMode} {y : BitVec 64}
    (h : r.op = ⟨neg, fmt, rm, false, false, false, false, y⟩) :
    s4 r =
      ⟨r.sig.packed fmt rm neg r.ebase, r.sig.underflow fmt rm neg r.ebase,
        ⟨false, false, r.sig.overflow fmt rm neg r.ebase, r.sig.underflow fmt rm neg r.ebase,
          r.sig.inexact fmt || r.sig.overflow fmt rm neg r.ebase⟩⟩ := by
  simp [s4, h, Sig.packed]

/-- The result on normal operands. -/
theorem result_of_normal (hn : Normal i.fmt i.a ∧ Normal i.fmt i.b) :
    (result i).denorm = true ∧
        Tiny i.fmt i.rm (sgn i.fmt i.a ^^ sgn i.fmt i.b) (mag ℚ i.fmt i.a * mag ℚ i.fmt i.b) ∨
      (result i).denorm = false ∧
        ¬ Tiny i.fmt i.rm (sgn i.fmt i.a ^^ sgn i.fmt i.b) (mag ℚ i.fmt i.a * mag ℚ i.fmt i.b) ∧
        Correct i.fmt i.rm (sgn i.fmt i.a ^^ sgn i.fmt i.b)
          (mag ℚ i.fmt i.a * mag ℚ i.fmt i.b) (result i).y (result i).fflags := by
  have hnorm := norm_of_prod i
  have htiny := hnorm.underflow_iff i.rm (sgn i.fmt i.a ^^ sgn i.fmt i.b)
  rw [result, s4_of_arith (s3 (s2 (s1 i))) (op_of_normal i hn)]
  cases hu : (s3 (s2 (s1 i))).sig.underflow i.fmt i.rm (sgn i.fmt i.a ^^ sgn i.fmt i.b)
      (s3 (s2 (s1 i))).ebase with
  | true => exact .inl ⟨rfl, htiny.1 hu⟩
  | false => exact .inr ⟨rfl, fun h => absurd (htiny.2 h) (by simp [hu]), hnorm.correct _ _ hu⟩

/-- `denorm` of operands without an arithmetic result. -/
theorem denorm_of_early (hn : ¬ (Normal i.fmt i.a ∧ Normal i.fmt i.b)) :
    (result i).denorm = true ↔
      special i.fmt i.a i.b = false ∧ inDenorm i.fmt i.a i.b = true := by
  have hd : (result i).denorm = (!special i.fmt i.a i.b && (inDenorm i.fmt i.a i.b ||
      (!(special i.fmt i.a i.b || isZero i.fmt i.a || isZero i.fmt i.b) &&
        (s3 (s2 (s1 i))).sig.underflow i.fmt i.rm (sgn i.fmt i.a ^^ sgn i.fmt i.b)
          (s3 (s2 (s1 i))).ebase))) := rfl
  rw [normal_both_iff] at hn
  cases hs : special i.fmt i.a i.b <;> cases hi : inDenorm i.fmt i.a i.b <;>
    cases hza : isZero i.fmt i.a <;> cases hzb : isZero i.fmt i.b <;> simp_all

/-- **The multiplier is correctly rounded.**  Four cycles after normal operands, unless
`denorm` is raised, the output is their product rounded once in the given mode, with its
flags; `denorm` is raised for a denormal operand, unless the other makes the result a special
value, and for a product that rounds to below the normal range. -/
theorem mul_correct (m : Mul) (i j k l : MulIn) :
    let out := (Hw.run next m [i, j, k, l]).r4
    let neg := sgn i.fmt i.a ^^ sgn i.fmt i.b
    let x := mag ℚ i.fmt i.a * mag ℚ i.fmt i.b
    (Normal i.fmt i.a → Normal i.fmt i.b → out.denorm = false →
      Correct i.fmt i.rm neg x out.y out.fflags) ∧
    (out.denorm = true ↔
      special i.fmt i.a i.b = false ∧ inDenorm i.fmt i.a i.b = true ∨
        (Normal i.fmt i.a ∧ Normal i.fmt i.b) ∧ Tiny i.fmt i.rm neg x) := by
  intro out neg x
  have hout : out = result i := run_result m i j k l
  rw [hout]
  constructor
  · intro ha hb hd
    rcases result_of_normal i ⟨ha, hb⟩ with ⟨hd', -⟩ | ⟨-, -, hc⟩
    · exact absurd (hd.symm.trans hd') Bool.false_ne_true
    · exact hc
  · by_cases hn : Normal i.fmt i.a ∧ Normal i.fmt i.b
    · have hin := (normal_both_iff.1 hn).2.1
      simp only [hin, hn, Bool.false_eq_true, and_false, true_and, false_or]
      rcases result_of_normal i hn with ⟨hd, ht⟩ | ⟨hd, ht, -⟩
      · exact iff_of_true hd ht
      · exact iff_of_false (by rw [hd]; exact Bool.false_ne_true) ht
    · rw [denorm_of_early i hn]
      exact (or_iff_left fun h => hn h.1).symm

/-- `1.5 * 1.5` in double precision. -/
def square : MulIn := ⟨0x3ff8000000000000#64, 0x3ff8000000000000#64, .nearest, true⟩

/-- A multiplier that does nothing else. -/
def squaring : Mul := ⟨s1 square, s2 (s1 square), s3 (s2 (s1 square)), result square⟩

theorem mul_correct_square :
    (Hw.run next squaring [square, square, square, square]).r4.y = 0x4002000000000000#64 ∧
      Correct square.fmt square.rm (sgn square.fmt square.a ^^ sgn square.fmt square.b)
        (mag ℚ square.fmt square.a * mag ℚ square.fmt square.b)
        (Hw.run next squaring [square, square, square, square]).r4.y
        (Hw.run next squaring [square, square, square, square]).r4.fflags :=
  ⟨by decide +kernel, (mul_correct squaring square square square square).1
    (by decide +kernel) (by decide +kernel) (by decide +kernel)⟩

end Result

end Mul

end R9999.Fpu
