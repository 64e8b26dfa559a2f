import R9999.Fpu.Round
import R9999.Hw.Clz
import R9999.Hw.Run

/-!
# The adder

`fpu_add.sv`: four stages, which align the operands and settle the special cases, add or
subtract the magnitudes, normalize the result, and round and pack it.

The aligned operands are kept with three bits under the last one of the significand, the last
of them sticky; `Aligned` says what they are of the operands.  The sum of the second stage is
the exact one up to its sticky bit (`Summed`), and `norm_of_sum` that the third stage hands it
to the rounding stage, with one exception: where the whole difference lies in the guard bit,
the leading-zero count does not reach far enough (`s3_guard`).
-/

open Hw (RoundMode Rounds Tail Jam countLeadingZeros)

namespace R9999.Fpu

/-- The inputs of one cycle. -/
structure AddIn where
  sub : Bool
  a : BitVec 64
  b : BitVec 64
  rm : RoundMode
  fmt : Bool

namespace Add

/-- The registers that go along with an operation. -/
structure Op where
  fmt : Bool
  rm : RoundMode
  evalid : Bool
  special : Bool
  inv : Bool
  inden : Bool
  early : BitVec 64

/-- `r1`. -/
structure R1 where
  op : Op
  a : ℕ
  b : ℕ
  exp : ℕ
  sgnA : Bool
  sgnB : Bool

/-- `r2`. -/
structure R2 where
  op : Op
  sig : Sig
  exp : ℕ
  sign : Bool

/-- `r3`. -/
structure R3 where
  op : Op
  sig : Sig
  exp : ℕ
  sign : Bool
  expLe0 : Bool

/-- `sgn_b`: a subtraction adds the other number. -/
def sgnB (i : AddIn) : Bool := if i.sub then !sgn i.fmt i.b else sgn i.fmt i.b

/-- A right shift that keeps what it drops in the last bit. -/
def alignRight (mant dist : ℕ) : ℕ := mant / 2 ^ dist ||| (mant % 2 ^ dist != 0).toNat

/-- Unpack the operands, settle the special cases and align the significands. -/
def s1 (i : AddIn) : R1 :=
  let sgnA := sgn i.fmt i.a
  let sgnB := sgnB i
  let aZero := isZero i.fmt i.a
  let bZero := isZero i.fmt i.b
  let anyNan := isNan i.fmt i.a || isNan i.fmt i.b
  let infSubInf := isInf i.fmt i.a && isInf i.fmt i.b && (sgnA ^^ sgnB)
  let sp := special i.fmt i.a i.b
  let aPass := if i.fmt then i.a else 0#32 ++ i.a.extractLsb' 0 32
  let bPass :=
    if i.fmt then BitVec.ofBool sgnB ++ i.b.extractLsb' 0 63
    else 0#32 ++ (BitVec.ofBool sgnB ++ i.b.extractLsb' 0 31)
  -- two zeros of one sign keep it
  let zzSign := if sgnA = sgnB then sgnA else decide (i.rm = .down)
  let expA := exp i.fmt i.a
  let expB := exp i.fmt i.b
  let mantA := sig i.fmt i.a * 2 ^ 3
  let mantB := sig i.fmt i.b * 2 ^ 3
  { op :=
      { fmt := i.fmt, rm := i.rm
        evalid := sp || aZero || bZero
        special := sp
        inv := isSnan i.fmt i.a || isSnan i.fmt i.b || infSubInf
        inden := inDenorm i.fmt i.a i.b
        early :=
          if sp then
            if anyNan || infSubInf then defNan i.fmt
            else infinity i.fmt (if isInf i.fmt i.a then sgnA else sgnB)
          else if aZero && bZero then zero i.fmt zzSign
          else if aZero then bPass
          else aPass }
    a := if expA < expB then alignRight mantA (expB - expA) else mantA
    b := if expB < expA then alignRight mantB (expA - expB) else mantB
    exp := if expA < expB then expB else expA
    sgnA, sgnB }

/-- `t_align_sum`. -/
def alignSum (r : R1) : ℕ :=
  if r.sgnA ≠ r.sgnB then if r.b < r.a then r.a - r.b else r.b - r.a else r.a + r.b

/-- `t_align_sign`. -/
def alignSign (r : R1) : Bool :=
  if r.sgnA ≠ r.sgnB then if r.b < r.a then r.sgnA else r.sgnB else r.sgnA

/-- Add or subtract the magnitudes. -/
def s2 (r : R1) : R2 :=
  let sum := alignSum r
  let top := sum.testBit 56
  { op := r.op
    sig :=
      { sig := if top then sum / 2 ^ 4 % 2 ^ 53 else sum / 2 ^ 3 % 2 ^ 53
        gd := if top then sum.testBit 3 else sum.testBit 2
        rd := if top then sum.testBit 2 else sum.testBit 1
        sd := if top then sum.testBit 1 || sum.testBit 0 else sum.testBit 0 }
    exp := if top then (r.exp + 1) % 2 ^ 12 else r.exp
    sign := alignSign r }

/-- `fpu_zero_detector`: the leading zeros of 53 bits, at most 52. -/
def distance (a : ℕ) : ℕ :=
  let ffs := countLeadingZeros 4 (a * 2 ^ 11)
  if 52 ≤ ffs then 52 else ffs % 2 ^ 6

/-- Normalize the sum. -/
def s3 (r : R2) : R3 :=
  let shift := distance r.sig.sig
  let low := !r.sig.sig.testBit 52
  let norm := low && r.exp != 0
  { op := r.op
    sig :=
      if norm then
        if shift = 1 then
          { sig := r.sig.sig % 2 ^ 52 * 2 + r.sig.gd.toNat
            gd := r.sig.rd, rd := false, sd := r.sig.sd }
        else
          { sig := (r.sig.sig % 2 ^ 51 * 4 + r.sig.gd.toNat * 2 + r.sig.rd.toNat) *
              2 ^ (shift - 2) % 2 ^ 53
            gd := false, rd := false, sd := r.sig.sd }
      else r.sig
    exp := if norm then (r.exp + 2 ^ 12 - shift) % 2 ^ 12 else r.exp
    sign := r.sign
    expLe0 := (r.exp : ℤ) - (if low then shift else 0 : ℕ) ≤ 0 }

/-- Round and pack. -/
def s4 (r : R3) : Out :=
  let o := r.op
  let roundMant := r.sig.finalSig o.fmt o.rm r.sign
  let roundExp := if r.sig.carry o.fmt o.rm r.sign then (r.exp + 1) % 2 ^ 12 else r.exp
  let isZero := roundMant == 0
  let ovf := decide (infExp o.fmt ≤ roundExp % 2 ^ 11) || roundExp.testBit 11
  let resDenorm := !o.evalid && r.expLe0 && roundMant != 0
  { y :=
      if o.evalid then o.early
      else if isZero then if o.rm = .down then zero o.fmt true else 0#64
      else if ovf then Sig.ovfY o.fmt o.rm r.sign
      else word o.fmt r.sign (roundExp % 2 ^ 11) (roundMant % 2 ^ 52 / lastBit o.fmt)
    denorm := !o.special && (o.inden || resDenorm)
    fflags :=
      ⟨o.inv, false, !o.evalid && !isZero && ovf, resDenorm,
        !o.evalid && !isZero && (r.sig.inexact o.fmt || ovf)⟩ }

end Add

/-- The registers of the adder. -/
structure Add where
  r1 : Add.R1
  r2 : Add.R2
  r3 : Add.R3
  r4 : Out

namespace Add

/-- One cycle. -/
def next (m : Add) (i : AddIn) : Add :=
  { r1 := s1 i, r2 := s2 m.r1, r3 := s3 m.r2, r4 := s4 m.r3 }

/-- What the adder makes of its operands. -/
def result (i : AddIn) : Out := s4 (s3 (s2 (s1 i)))

/-- The result comes out four cycles later. -/
theorem run_result (m : Add) (i j k l : AddIn) :
    (Hw.run next m [i, j, k, l]).r4 = result i := rfl

/-! ## The leading zeros -/

/-- The detector counts the leading zeros of a number that is not zero. -/
theorem distance_eq {a k : ℕ} (hk : k ≤ 52) (hl : 2 ^ (52 - k) ≤ a) (hh : a < 2 ^ (53 - k)) :
    distance a = k := by
  have hpow : 2 ^ (53 - k) * 2 ^ 11 = 2 ^ (64 - k) := by
    rw [← pow_add]
    congr 1
    omega
  have hpow' : 2 ^ (52 - k) * 2 ^ 11 = 2 ^ (63 - k) := by
    rw [← pow_add]
    congr 1
    omega
  have hlt : a * 2 ^ 11 < 2 ^ (64 - k) :=
    hpow ▸ (Nat.mul_lt_mul_right (Nat.two_pow_pos 11)).2 hh
  have hge : 2 ^ (63 - k) ≤ a * 2 ^ 11 := hpow' ▸ Nat.mul_le_mul_right _ hl
  have hsize : (a * 2 ^ 11).size = 64 - k := by
    refine le_antisymm (Nat.size_le.2 hlt) ?_
    have := Nat.lt_size.2 hge
    omega
  have hcount : countLeadingZeros 4 (a * 2 ^ 11) + (a * 2 ^ 11).size = 64 :=
    Hw.countLeadingZeros_add_size 4 _
      (hlt.trans_le (Nat.pow_le_pow_right (by decide) (by omega)))
  have hffs : countLeadingZeros 4 (a * 2 ^ 11) = k := by omega
  simp only [distance, hffs]
  split <;> omega

/-! ## The alignment -/

/-- What the second stage makes of the magnitudes: their sum up to its sticky bit, and exactly
where more than one place is lost to cancellation. -/
structure Summed (w : ℚ) (sum : ℕ) : Prop where
  jam : Jam w sum
  lt : sum < 2 ^ 57
  exact : sum < 2 ^ 54 → w = sum ∧ sum % 4 = 0

/-- The operand `A` with the larger exponent and the other one, `v` in its units, as the shift
leaves it. -/
structure Under (A : ℕ) (v : ℚ) (s : ℕ) : Prop where
  low : 2 ^ 55 ≤ A
  high : A < 2 ^ 56
  mult : A % 8 = 0
  jam : Jam v s
  lt : s < 2 ^ 56
  close : (v = s ∧ s % 4 = 0) ∨ s < 2 ^ 54

theorem alignRight_zero (m : ℕ) : alignRight m 0 = m := by
  simp [alignRight, Nat.mod_one]

theorem alignRight_lt {m d n : ℕ} (h : m / 2 ^ d < 2 * n) : alignRight m d < 2 * n := by
  rw [alignRight]
  cases m % 2 ^ d != 0 with
  | true =>
    rw [Bool.toNat_true, Hw.or_one_eq]
    omega
  | false =>
    rw [Bool.toNat_false, Nat.or_zero]
    exact h

/-- A shift by one place loses nothing. -/
theorem alignRight_one (fmt : Bool) (b : BitVec 64) :
    alignRight (sig fmt b * 2 ^ 3) 1 = sig fmt b * 2 ^ 2 := by
  have hm : sig fmt b * 2 ^ 3 % 2 ^ 1 = 0 := by omega
  rw [alignRight, hm, bne_self_eq_false, Bool.toNat_false, Nat.or_zero]
  omega

/-- A shift by more leaves at most half of the other operand. -/
theorem alignRight_far (fmt : Bool) (b : BitVec 64) (d : ℕ) :
    alignRight (sig fmt b * 2 ^ 3) (d + 1 + 1) < 2 ^ 54 := by
  have hb := (sig_bounds fmt b).2
  refine alignRight_lt (n := 2 ^ 53) ?_
  have hpow : 2 ^ (d + 1 + 1) = 4 * 2 ^ d := by ring
  have hle : sig fmt b * 2 ^ 3 / 2 ^ (d + 1 + 1) ≤ sig fmt b * 2 ^ 3 / 4 := by
    refine Nat.div_le_div_left ?_ (by decide)
    rw [hpow]
    exact Nat.le_mul_of_pos_right 4 (Nat.two_pow_pos d)
  omega

/-- The alignment of a significand under another. -/
theorem under_of_sig (fmt : Bool) (a b : BitVec 64) (d : ℕ) :
    Under (sig fmt a * 2 ^ 3) ((sig fmt b * 2 ^ 3 : ℕ) / 2 ^ d)
      (alignRight (sig fmt b * 2 ^ 3) d) := by
  obtain ⟨ha, ha'⟩ := sig_bounds fmt a
  obtain ⟨hb, hb'⟩ := sig_bounds fmt b
  have hdiv : sig fmt b * 2 ^ 3 / 2 ^ d ≤ sig fmt b * 2 ^ 3 := Nat.div_le_self _ _
  refine ⟨by omega, by omega, by omega, Jam.shiftRight _ _,
    alignRight_lt (n := 2 ^ 55) (by omega), ?_⟩
  rcases d with - | - | d
  · refine .inl ⟨?_, ?_⟩ <;> rw [alignRight_zero]
    · simp
    · omega
  · refine .inl ⟨?_, ?_⟩ <;> rw [zero_add, alignRight_one]
    · push_cast
      ring
    · omega
  · exact .inr (alignRight_far fmt b d)

/-- The sum of the aligned magnitudes. -/
theorem Under.add {A s : ℕ} {v : ℚ} (h : Under A v s) : Summed (A + v) (A + s) := by
  obtain ⟨hl, hh, hm, hj, hlt, -⟩ := h
  exact ⟨hj.add_even (by omega), by omega, fun _ => by omega⟩

/-- Their difference. -/
theorem Under.sub {A s : ℕ} {v : ℚ} (h : Under A v s) (hle : s ≤ A) :
    Summed (A - v) (A - s) := by
  obtain ⟨hl, hh, hm, hj, hlt, hc⟩ := h
  refine ⟨hj.even_sub (by omega) hle, by omega, fun hs => ?_⟩
  rcases hc with ⟨rfl, h4⟩ | hc
  · exact ⟨(Nat.cast_sub hle).symm, by omega⟩
  · omega

/-- Their difference the other way round: the exponents are equal. -/
theorem Under.sub_rev {A s : ℕ} {v : ℚ} (h : Under A v s) (hle : A ≤ s) :
    Summed (v - A) (s - A) := by
  obtain ⟨hl, hh, hm, hj, hlt, hc⟩ := h
  rcases hc with ⟨rfl, h4⟩ | hc
  · have hcast : (s : ℚ) - A = (s - A : ℕ) := (Nat.cast_sub hle).symm
    rw [hcast]
    exact ⟨Jam.of_nat _, by omega, fun _ => ⟨rfl, by omega⟩⟩
  · omega

/-- The registers of the first stage hold the magnitudes `va` and `vb` in their units. -/
def Aligned (r : R1) (va vb : ℚ) : Prop :=
  (va = r.a ∧ Under r.a vb r.b) ∨ (vb = r.b ∧ Under r.b va r.a)

/-- The unit of the last bit of the registers. -/
def ulp (fmt : Bool) (r : R1) : ℚ := 2 ^ ((r.exp : ℤ) - bias fmt - 55)

/-- A significand in the units of a larger exponent. -/
theorem mag_eq (fmt : Bool) (a : BitVec 64) {e : ℕ} (h : exp fmt a ≤ e) :
    mag ℚ fmt a =
      (sig fmt a * 2 ^ 3 : ℕ) / 2 ^ (e - exp fmt a) * 2 ^ ((e : ℤ) - bias fmt - 55) := by
  have hpow : (2 : ℚ) ^ ((e : ℤ) - bias fmt - 55) =
      2 ^ ((exp fmt a : ℤ) - bias fmt - 55) * 2 ^ (e - exp fmt a) := by
    rw [← zpow_natCast, ← zpow_add₀ two_ne_zero, Nat.cast_sub h]
    congr 1
    ring
  have hunit : (2 : ℚ) ^ ((exp fmt a : ℤ) - bias fmt - 52) =
      2 ^ 3 * 2 ^ ((exp fmt a : ℤ) - bias fmt - 55) := by
    rw [← zpow_natCast, ← zpow_add₀ two_ne_zero]
    congr 1
    push_cast
    ring
  have hne : (2 : ℚ) ^ (e - exp fmt a) ≠ 0 := pow_ne_zero _ two_ne_zero
  rw [hpow, mag, hunit, mul_comm _ ((2 : ℚ) ^ (e - exp fmt a)), ← mul_assoc, ← mul_assoc,
    div_mul_cancel₀ _ hne]
  push_cast
  rfl

/-- The registers where the second operand has the larger exponent. -/
theorem s1_of_lt {i : AddIn} (h : exp i.fmt i.a < exp i.fmt i.b) :
    (s1 i).a = alignRight (sig i.fmt i.a * 2 ^ 3) (exp i.fmt i.b - exp i.fmt i.a) ∧
      (s1 i).b = sig i.fmt i.b * 2 ^ 3 ∧ (s1 i).exp = exp i.fmt i.b :=
  ⟨if_pos h, if_neg (by omega), if_pos h⟩

/-- The registers where it does not. -/
theorem s1_of_le {i : AddIn} (h : exp i.fmt i.b ≤ exp i.fmt i.a) :
    (s1 i).a = sig i.fmt i.a * 2 ^ 3 ∧
      (s1 i).b = alignRight (sig i.fmt i.b * 2 ^ 3) (exp i.fmt i.a - exp i.fmt i.b) ∧
      (s1 i).exp = exp i.fmt i.a := by
  refine ⟨if_neg (by omega), ?_, if_neg (by omega)⟩
  rcases h.lt_or_eq with hlt | heq
  · exact if_pos hlt
  · rw [heq, Nat.sub_self, alignRight_zero]
    exact if_neg (by omega)

/-- **The alignment** of two operands. -/
theorem aligned (i : AddIn) :
    ∃ va vb, Aligned (s1 i) va vb ∧ mag ℚ i.fmt i.a = va * ulp i.fmt (s1 i) ∧
      mag ℚ i.fmt i.b = vb * ulp i.fmt (s1 i) := by
  have hself (x : BitVec 64) := mag_eq i.fmt x le_rfl
  simp only [Nat.sub_self, pow_zero, div_one] at hself
  by_cases h : exp i.fmt i.a < exp i.fmt i.b
  · obtain ⟨ha, hb, he⟩ := s1_of_lt h
    simp only [Aligned, ulp, ha, hb, he]
    exact ⟨_, _, .inr ⟨rfl, under_of_sig i.fmt i.b i.a _⟩, mag_eq i.fmt i.a h.le, hself i.b⟩
  · obtain ⟨ha, hb, he⟩ := s1_of_le (not_lt.1 h)
    simp only [Aligned, ulp, ha, hb, he]
    exact ⟨_, _, .inl ⟨rfl, under_of_sig i.fmt i.a i.b _⟩, hself i.a,
      mag_eq i.fmt i.b (not_lt.1 h)⟩

/-- Magnitudes of one sign. -/
theorem Aligned.add {r : R1} {va vb : ℚ} (h : Aligned r va vb) : Summed (va + vb) (r.a + r.b) := by
  rcases h with ⟨rfl, h⟩ | ⟨rfl, h⟩
  · exact h.add
  · rw [add_comm, Nat.add_comm]
    exact h.add

/-- The second from the first. -/
theorem Aligned.sub {r : R1} {va vb : ℚ} (h : Aligned r va vb) (hle : r.b ≤ r.a) :
    Summed (va - vb) (r.a - r.b) := by
  rcases h with ⟨rfl, h⟩ | ⟨rfl, h⟩
  · exact h.sub hle
  · exact h.sub_rev hle

/-- The first from the second. -/
theorem Aligned.sub_rev {r : R1} {va vb : ℚ} (h : Aligned r va vb) (hle : r.a ≤ r.b) :
    Summed (vb - va) (r.b - r.a) := by
  rcases h with ⟨rfl, h⟩ | ⟨rfl, h⟩
  · exact h.sub_rev hle
  · exact h.sub hle

/-- **The second stage adds** the magnitudes, by their signs. -/
theorem Aligned.summed {r : R1} {va vb : ℚ} (h : Aligned r va vb) :
    ∃ w, Summed w (alignSum r) ∧
      signed r.sgnA va + signed r.sgnB vb = signed (alignSign r) w := by
  by_cases hs : r.sgnA = r.sgnB
  · refine ⟨va + vb, ?_, ?_⟩
    · rw [alignSum, if_neg (not_not.2 hs)]
      exact h.add
    · rw [alignSign, if_neg (not_not.2 hs), ← hs]
      cases r.sgnA <;> simp only [signed, Bool.false_eq_true, if_false, if_true]
      ring
  · by_cases hlt : r.b < r.a
    · refine ⟨va - vb, ?_, ?_⟩
      · rw [alignSum, if_pos hs, if_pos hlt]
        exact h.sub hlt.le
      · rw [alignSign, if_pos hs, if_pos hlt, Bool.eq_not_of_ne (Ne.symm hs)]
        cases r.sgnA <;> simp only [signed, Bool.not_false, Bool.not_true, Bool.false_eq_true, if_false, if_true] <;> ring
    · refine ⟨vb - va, ?_, ?_⟩
      · rw [alignSum, if_pos hs, if_neg hlt]
        exact h.sub_rev (not_lt.1 hlt)
      · rw [alignSign, if_pos hs, if_neg hlt, Bool.eq_not_of_ne hs]
        cases r.sgnB <;> simp only [signed, Bool.not_false, Bool.not_true, Bool.false_eq_true, if_false, if_true] <;> ring

/-! ## The normalization -/

/-- The number the fourth stage gets, and its exponent. -/
structure Handed (fmt : Bool) (r : R3) (e : ℤ) (x : ℚ) : Prop where
  norm : Norm fmt r.sig e x
  exp : (r.exp : ℤ) = e % 2 ^ 12
  le0 : r.expLe0 = decide (e ≤ 0)
  le : e ≤ 2047

section Stages

variable (r : R1)

theorem s2_of_carry (hT : 2 ^ 56 ≤ alignSum r) (hlt : alignSum r < 2 ^ 57) (he : r.exp < 2047) :
    s2 r =
      { op := r.op
        sig :=
          { sig := alignSum r / 2 ^ 4, gd := (alignSum r).testBit 3, rd := (alignSum r).testBit 2
            sd := (alignSum r).testBit 1 || (alignSum r).testBit 0 }
        exp := r.exp + 1, sign := alignSign r } := by
  have ht : (alignSum r).testBit 56 = true := by
    rw [Nat.testBit_eq_decide_div_mod_eq, decide_eq_true_eq]
    omega
  have hm : alignSum r / 2 ^ 4 % 2 ^ 53 = alignSum r / 2 ^ 4 := Nat.mod_eq_of_lt (by omega)
  have hexp : (r.exp + 1) % 2 ^ 12 = r.exp + 1 := Nat.mod_eq_of_lt (by omega)
  simp only [s2, ht, if_true, hm, hexp]

theorem s2_of_lt (hT : alignSum r < 2 ^ 56) :
    s2 r =
      { op := r.op
        sig :=
          { sig := alignSum r / 2 ^ 3, gd := (alignSum r).testBit 2, rd := (alignSum r).testBit 1
            sd := (alignSum r).testBit 0 }
        exp := r.exp, sign := alignSign r } := by
  have ht : (alignSum r).testBit 56 = false := by
    rw [Nat.testBit_eq_decide_div_mod_eq, decide_eq_false_iff_not]
    omega
  have hm : alignSum r / 2 ^ 3 % 2 ^ 53 = alignSum r / 2 ^ 3 := Nat.mod_eq_of_lt (by omega)
  simp only [s2, ht, Bool.false_eq_true, if_false, hm]

end Stages

section Stages

variable (r : R2)

theorem s3_of_normalized (hl : 2 ^ 52 ≤ r.sig.sig) (hh : r.sig.sig < 2 ^ 53) :
    s3 r = ⟨r.op, r.sig, r.exp, r.sign, decide ((r.exp : ℤ) ≤ 0)⟩ := by
  have ht : r.sig.sig.testBit 52 = true := by
    rw [Nat.testBit_eq_decide_div_mod_eq, decide_eq_true_eq]
    omega
  simp [s3, ht]

/-- The shift of a sum below the place of the hidden bit. -/
theorem s3_of_shift (hh : r.sig.sig < 2 ^ 52) (he : 0 < r.exp) :
    s3 r =
      { op := r.op
        sig :=
          if distance r.sig.sig = 1 then
            { sig := r.sig.sig % 2 ^ 52 * 2 + r.sig.gd.toNat
              gd := r.sig.rd, rd := false, sd := r.sig.sd }
          else
            { sig := (r.sig.sig % 2 ^ 51 * 4 + r.sig.gd.toNat * 2 + r.sig.rd.toNat) *
                2 ^ (distance r.sig.sig - 2) % 2 ^ 53
              gd := false, rd := false, sd := r.sig.sd }
        exp := (r.exp + 2 ^ 12 - distance r.sig.sig) % 2 ^ 12
        sign := r.sign
        expLe0 := decide ((r.exp : ℤ) - distance r.sig.sig ≤ 0) } := by
  have ht : r.sig.sig.testBit 52 = false := by
    rw [Nat.testBit_eq_decide_div_mod_eq, decide_eq_false_iff_not]
    omega
  have he0 : (r.exp != 0) = true := bne_iff_ne.2 he.ne'
  simp [s3, ht, he0]

end Stages

section Normalize

variable {r : R1} {w : ℚ} (fmt : Bool)

/-- A sum with a carry. -/
theorem handed_of_carry (hs : Summed w (alignSum r)) (he : r.exp < 2047)
    (hT : 2 ^ 56 ≤ alignSum r) :
    Handed fmt (s3 (s2 r)) (r.exp + 1) (w * 2 ^ (r.exp - bias fmt - 55 : ℤ)) := by
  have hlt := hs.lt
  rw [s2_of_carry r hT hlt he, s3_of_normalized _ (by dsimp only; omega) (by dsimp only; omega)]
  refine ⟨?_, ?_, rfl, by omega⟩
  · refine Norm.of_jam (k := 3) hs.jam (by decide) rfl ?_ ?_ hT hlt (by push_cast; ring)
    · rw [Nat.testBit_eq_decide_div_mod_eq, decide_eq_true_eq]
      omega
    · simp only [Nat.testBit_eq_decide_div_mod_eq, Bool.or_eq_true, decide_eq_true_eq]
      omega
  · dsimp only
    omega

/-- A sum with its leading one in place. -/
theorem handed_of_top (hs : Summed w (alignSum r)) (he : r.exp < 2047)
    (hl : 2 ^ 55 ≤ alignSum r) (hh : alignSum r < 2 ^ 56) :
    Handed fmt (s3 (s2 r)) r.exp (w * 2 ^ (r.exp - bias fmt - 55 : ℤ)) := by
  rw [s2_of_lt r hh, s3_of_normalized _ (by dsimp only; omega) (by dsimp only; omega)]
  refine ⟨?_, ?_, rfl, by omega⟩
  · refine Norm.of_jam (k := 2) hs.jam (by decide) rfl ?_ ?_ hl hh (by push_cast; ring)
    · rw [Nat.testBit_eq_decide_div_mod_eq, decide_eq_true_eq]
      omega
    · simp only [Nat.testBit_eq_decide_div_mod_eq, Bool.or_eq_true, decide_eq_true_eq]
      omega
  · dsimp only
    omega

/-- A difference that lost one place: the guard bit moves up. -/
theorem handed_of_half (hs : Summed w (alignSum r)) (he0 : 0 < r.exp) (he : r.exp < 2047)
    (hl : 2 ^ 54 ≤ alignSum r) (hh : alignSum r < 2 ^ 55) :
    Handed fmt (s3 (s2 r)) (r.exp - 1) (w * 2 ^ (r.exp - bias fmt - 55 : ℤ)) := by
  have hd : distance (alignSum r / 2 ^ 3) = 1 := distance_eq (by decide) (by omega) (by omega)
  rw [s2_of_lt r (by omega), s3_of_shift _ (by dsimp only; omega) he0]
  dsimp only
  rw [hd, if_pos rfl]
  refine ⟨?_, ?_, rfl, by omega⟩
  · refine Norm.of_jam (k := 1) hs.jam (by decide) ?_ ?_ ?_ hl hh (by push_cast; ring)
    · simp only [Nat.toNat_testBit]
      omega
    · simp only [Nat.testBit_eq_decide_div_mod_eq, decide_eq_true_eq]
      omega
    · simp only [Nat.testBit_eq_decide_div_mod_eq, Bool.false_or, decide_eq_true_eq]
      omega
  · dsimp only
    omega

/-- A number of at most 51 bits, by its leading zeros. -/
theorem exists_leading {a : ℕ} (h0 : 0 < a) (ha : a < 2 ^ 51) :
    ∃ k ≤ 50, 2 ^ (52 - (k + 2)) ≤ a ∧ a < 2 ^ (53 - (k + 2)) := by
  have hs0 : 0 < a.size := Nat.size_pos.2 h0
  have hs : a.size ≤ 51 := Nat.size_le.2 ha
  refine ⟨51 - a.size, by omega, ?_, ?_⟩
  · exact Nat.lt_size.1 (by omega)
  · have he : 53 - (51 - a.size + 2) = a.size := by omega
    rw [he]
    exact Nat.lt_size_self a

/-- A difference that lost more is exact. -/
theorem handed_of_small (hs : Summed w (alignSum r)) (he0 : 0 < r.exp) (he : r.exp < 2047)
    (hl : 8 ≤ alignSum r) (hh : alignSum r < 2 ^ 54) :
    ∃ e, Handed fmt (s3 (s2 r)) e (w * 2 ^ (r.exp - bias fmt - 55 : ℤ)) := by
  obtain ⟨rfl, h4⟩ := hs.exact hh
  obtain ⟨k, hk, hkl, hkh⟩ := exists_leading (a := alignSum r / 2 ^ 3) (by omega) (by omega)
  have hd : distance (alignSum r / 2 ^ 3) = k + 2 := distance_eq (by omega) hkl hkh
  have hg : (alignSum r).testBit 1 = false ∧ (alignSum r).testBit 0 = false := by
    simp only [Nat.testBit_eq_decide_div_mod_eq, decide_eq_false_iff_not]
    omega
  have hpl : 2 ^ (52 - (k + 2)) * 2 ^ k = 2 ^ 50 := by
    rw [← pow_add]
    congr 1
    omega
  have hph : 2 ^ (53 - (k + 2)) * 2 ^ k = 2 ^ 51 := by
    rw [← pow_add]
    congr 1
    omega
  have hlow : 2 ^ 52 ≤ alignSum r / 2 * 2 ^ k :=
    calc 2 ^ 52 = 4 * 2 ^ 50 := by norm_num
      _ = 4 * 2 ^ (52 - (k + 2)) * 2 ^ k := by rw [Nat.mul_assoc, hpl]
      _ ≤ alignSum r / 2 * 2 ^ k := Nat.mul_le_mul_right _ (by omega)
  have hhigh : alignSum r / 2 * 2 ^ k < 2 ^ 53 :=
    calc alignSum r / 2 * 2 ^ k < 4 * 2 ^ (53 - (k + 2)) * 2 ^ k :=
          (Nat.mul_lt_mul_right (Nat.two_pow_pos k)).2 (by omega)
      _ = 4 * 2 ^ 51 := by rw [Nat.mul_assoc, hph]
      _ = 2 ^ 53 := by norm_num
  have hm : (alignSum r / 2 ^ 3 % 2 ^ 51 * 4 + alignSum r / 2 ^ 2 % 2 * 2 + 0) * 2 ^ k % 2 ^ 53 =
      alignSum r / 2 * 2 ^ k := by
    have he : alignSum r / 2 ^ 3 % 2 ^ 51 * 4 + alignSum r / 2 ^ 2 % 2 * 2 + 0 =
        alignSum r / 2 := by omega
    rw [he, Nat.mod_eq_of_lt hhigh]
  rw [s2_of_lt r (by omega), s3_of_shift _ (by dsimp only; omega) he0]
  simp only [hd, hg, Nat.toNat_testBit, Bool.toNat_false, Nat.add_sub_cancel, hm,
    if_neg (by omega : ¬ k + 2 = 1)]
  refine ⟨r.exp - (k + 2 : ℕ), ?_, ?_, rfl, by omega⟩
  · have htwo : (alignSum r : ℚ) = (alignSum r / 2 : ℕ) * 2 := by
      exact_mod_cast (Nat.div_mul_cancel (by omega : 2 ∣ alignSum r)).symm
    have hpow : (2 : ℚ) ^ (r.exp - bias fmt - 55 : ℤ) * 2 =
        2 ^ k * 2 ^ ((r.exp - (k + 2 : ℕ) : ℤ) - bias fmt - 52) := by
      rw [← zpow_add_one₀ two_ne_zero, ← zpow_natCast, ← zpow_add₀ two_ne_zero]
      congr 1
      push_cast
      ring
    have hval : (alignSum r : ℚ) * 2 ^ (r.exp - bias fmt - 55 : ℤ) =
        ((alignSum r / 2 * 2 ^ k : ℕ) + 0) * 2 ^ ((r.exp - (k + 2 : ℕ) : ℤ) - bias fmt - 52) := by
      rw [add_zero, htwo, mul_assoc, mul_comm (2 : ℚ), hpow, ← mul_assoc]
      push_cast
      ring
    rw [hval]
    exact Norm.of_tail (q := ⟨_, _, _, _⟩) hlow hhigh Tail.zero
  · dsimp only
    omega

/-- **The normalization** of any sum but the two it does not reach. -/
theorem handed_of_sum (hs : Summed w (alignSum r)) (he0 : 0 < r.exp) (he : r.exp < 2047)
    (h0 : alignSum r ≠ 0) (h4 : alignSum r ≠ 4) :
    ∃ e, Handed fmt (s3 (s2 r)) e (w * 2 ^ (r.exp - bias fmt - 55 : ℤ)) := by
  by_cases hsmall : alignSum r < 2 ^ 54
  · have := (hs.exact hsmall).2
    exact handed_of_small fmt hs he0 he (by omega) hsmall
  by_cases hhalf : alignSum r < 2 ^ 55
  · exact ⟨_, handed_of_half fmt hs he0 he (not_lt.1 hsmall) hhalf⟩
  by_cases htop : alignSum r < 2 ^ 56
  · exact ⟨_, handed_of_top fmt hs he (not_lt.1 hhalf) htop⟩
  · exact ⟨_, handed_of_carry fmt hs he (not_lt.1 htop)⟩

/-- Nothing is left. -/
theorem s3_of_zero (h : alignSum r = 0) (he0 : 0 < r.exp) :
    (s3 (s2 r)).sig = ⟨0, false, false, false⟩ := by
  rw [s2_of_lt r (by omega), s3_of_shift _ (by dsimp only; omega) he0]
  simp [h]

/-- The whole difference lies in the guard bit: it is shifted one place too few. -/
theorem s3_of_guard (h : alignSum r = 4) (he0 : 0 < r.exp) :
    (s3 (s2 r)).sig = ⟨2 ^ 51, false, false, false⟩ ∧
      (s3 (s2 r)).exp = (r.exp + 2 ^ 12 - 52) % 2 ^ 12 ∧
      (s3 (s2 r)).expLe0 = decide ((r.exp : ℤ) - 52 ≤ 0) := by
  have hd : distance 0 = 52 := by decide
  rw [s2_of_lt r (by omega), s3_of_shift _ (by dsimp only; omega) he0]
  simp [h, hd, Nat.testBit]

end Normalize

end Add

end R9999.Fpu
