import R9999.Fpu.Format
import Mathlib.Tactic.Tauto

/-!
# The rounding stage

The multiplier, the adder and the divider end in the same stage: a normalized significand of
53 bits with a guard, a round and a sticky bit is rounded at the last bit of the format (the
bit of weight `2 ^ 29` for a single) and packed.

`Norm` says what the stage is handed, a number by its significand, what was cut off, and its
exponent; `Norm.roundsTo` is that the stage rounds that number once, and `pack_eq` that it
packs the result.
-/

namespace R9999.Fpu

open Hw (RoundMode Rounds Tail Jam)

/-- `r_sig`, `r_gd`, `r_rd` and `r_sd`. -/
structure Sig where
  sig : ℕ
  gd : Bool
  rd : Bool
  sd : Bool
  deriving DecidableEq, Repr

namespace Sig

variable (fmt : Bool) (rm : RoundMode) (neg : Bool) (q : Sig)

/-- `w_g`. -/
def wG : Bool := if fmt then q.gd else q.sig.testBit 28

/-- `w_r`. -/
def wR : Bool := if fmt then q.rd else q.sig.testBit 27

/-- `w_s`. -/
def wS : Bool := if fmt then q.sd else q.sig % 2 ^ 27 != 0 || q.gd || q.rd || q.sd

/-- `w_lsb`. -/
def wLsb : Bool := if fmt then q.sig.testBit 0 else q.sig.testBit 29

/-- `w_inexact`. -/
def inexact : Bool := q.wG fmt || q.wR fmt || q.wS fmt

/-- `w_round_up`. -/
def roundUp : Bool :=
  match rm with
  | .nearest => q.wG fmt && (q.wR fmt || q.wS fmt || q.wLsb fmt)
  | .zero => false
  | .up => !neg && q.inexact fmt
  | .down => neg && q.inexact fmt

/-- `w_sum_r`. -/
def sumR : ℕ := q.sig + if q.roundUp fmt rm neg then lastBit fmt else 0

/-- `w_round_carry`. -/
def carry : Bool := (q.sumR fmt rm neg).testBit 53

/-- `w_final_sig`. -/
def finalSig : ℕ :=
  if q.carry fmt rm neg then q.sumR fmt rm neg / 2 else q.sumR fmt rm neg % 2 ^ 53

variable (e : ℤ)

/-- `w_exp_real`; the sum does not leave its fourteen bits. -/
def expReal : ℤ := e + (q.carry fmt rm neg).toNat

/-- `w_overflow`, of an arithmetic result. -/
def overflow : Bool := (infExp fmt : ℤ) ≤ q.expReal fmt rm neg e

/-- `w_underflow`, of an arithmetic result. -/
def underflow : Bool := q.expReal fmt rm neg e ≤ 0

/-- `ovf_y`. -/
def ovfY (fmt : Bool) (rm : RoundMode) (neg : Bool) : BitVec 64 :=
  if ovfInf neg rm then infinity fmt neg else largest fmt neg

/-- `norm_y`, from the low bits of the exponent and the significand. -/
def normY : BitVec 64 :=
  word fmt neg (q.expReal fmt rm neg e % 2 ^ 11).toNat
    (q.finalSig fmt rm neg % 2 ^ 52 / lastBit fmt)

/-- The packed result. -/
def packed : BitVec 64 :=
  if q.overflow fmt rm neg e then ovfY fmt rm neg else q.normY fmt rm neg e

end Sig

section Norm

variable {K : Type*} [Field K] [LinearOrder K] [IsStrictOrderedRing K]

/-- The number the stage is handed: a normalized significand at the biased exponent `e`, with
the tail that the bits under the last one of the format stand for. -/
structure Norm (fmt : Bool) (q : Sig) (e : ℤ) (x : K) : Prop where
  low : 2 ^ 52 ≤ q.sig
  high : q.sig < 2 ^ 53
  tail : ∃ f : K, Tail f (q.wG fmt) (q.wR fmt || q.wS fmt) ∧
    x = ((q.sig / lastBit fmt : ℕ) + f) * 2 ^ (e - bias fmt - fracBits fmt)

variable {fmt : Bool} {q : Sig} {e : ℤ} {x : K} (rm : RoundMode) (neg : Bool)

theorem lastBit_mul (fmt : Bool) : lastBit fmt * 2 ^ fracBits fmt = 2 ^ 52 := by
  cases fmt <;> rfl

theorem lastBit_pos (fmt : Bool) : 0 < lastBit fmt := by
  cases fmt <;> decide

/-- A significand with the tail its three bits stand for, in either format. -/
theorem Norm.of_tail {f : K} (hl : 2 ^ 52 ≤ q.sig) (hh : q.sig < 2 ^ 53)
    (hf : Tail f q.gd (q.rd || q.sd)) :
    Norm fmt q e ((q.sig + f) * 2 ^ (e - bias fmt - 52)) := by
  refine ⟨hl, hh, ?_⟩
  cases fmt with
  | true => exact ⟨f, hf, by simp [lastBit, fracBits]⟩
  | false =>
    refine ⟨((q.sig % 2 ^ 29 : ℕ) + f) / (2 * (2 ^ 28 : ℕ)), ?_, ?_⟩
    · refine Tail.of_bits (Nat.mod_lt _ (by decide)) hf.nonneg hf.lt_one ?_ ?_
      · simp only [Sig.wG, Bool.false_eq_true, if_false, Nat.testBit_eq_decide_div_mod_eq,
          decide_eq_true_eq]
        omega
      · simp only [Sig.wR, Sig.wS, Bool.false_eq_true, if_false, Nat.testBit_eq_decide_div_mod_eq,
          Bool.or_eq_true, decide_eq_true_eq, bne_iff_ne, ne_eq, hf.eq_zero_iff,
          Bool.or_eq_false_iff, not_and_or, Bool.not_eq_false]
        have h28 : q.sig % 2 ^ 29 % 2 ^ 28 = 0 ↔
            q.sig / 2 ^ 27 % 2 = 0 ∧ q.sig % 2 ^ 27 = 0 := by omega
        have hbit : q.sig / 2 ^ 27 % 2 = 1 ↔ ¬ q.sig / 2 ^ 27 % 2 = 0 := by omega
        rw [h28, hbit]
        tauto
    · have hsplit : (q.sig : K) = 2 ^ 29 * (q.sig / 2 ^ 29 : ℕ) + (q.sig % 2 ^ 29 : ℕ) := by
        exact_mod_cast (Nat.div_add_mod q.sig (2 ^ 29)).symm
      have hpow : (2 : K) ^ (e - bias false - 23) = 2 ^ (e - bias false - 52) * 2 ^ 29 := by
        rw [← zpow_natCast, ← zpow_add₀ two_ne_zero]
        congr 1
        push_cast
        ring
      simp only [lastBit, fracBits, Bool.false_eq_true, if_false, hsplit]
      generalize q.sig / 2 ^ 29 = n
      generalize q.sig % 2 ^ 29 = r
      push_cast
      rw [hpow]
      ring

/-- A binary number and a remainder, cut off under its 53 leading bits. -/
theorem Norm.of_testBit {p k : ℕ} {r : K} (h0 : 0 ≤ r) (h1 : r < 1) {s : Bool}
    (hs : s = true ↔ p % 2 ^ k ≠ 0 ∨ r ≠ 0) (hl : 2 ^ (k + 54) ≤ p) (hh : p < 2 ^ (k + 55))
    {u : ℤ} (hu : e - bias fmt - 52 = u + (k + 2)) :
    Norm fmt ⟨p / 2 ^ (k + 2), p.testBit (k + 1), p.testBit k, s⟩ e ((p + r) * 2 ^ u) := by
  obtain ⟨f, hf, hv⟩ := Tail.of_testBit h0 h1 hs
  have hpow : (2 : K) ^ (e - bias fmt - 52) = 2 ^ (k + 2) * 2 ^ u := by
    rw [hu, add_comm u, zpow_add₀ two_ne_zero, ← zpow_natCast, Nat.cast_add, Nat.cast_ofNat]
  rw [hv, mul_assoc, ← hpow]
  refine Norm.of_tail (q := ⟨_, _, _, _⟩) ?_ ?_ hf
  · rw [Nat.le_div_iff_mul_le (Nat.two_pow_pos _), ← pow_add]
    calc 2 ^ (52 + (k + 2)) = 2 ^ (k + 54) := by congr 1; omega
      _ ≤ p := hl
  · rw [Nat.div_lt_iff_lt_mul (Nat.two_pow_pos _), ← pow_add]
    calc p < 2 ^ (k + 55) := hh
      _ = 2 ^ (53 + (k + 2)) := by congr 1; omega

/-- The same for a number of 26 bits and a remainder, left-aligned, which is enough for a
single. -/
theorem Norm.of_short {p k : ℕ} {r : K} (h0 : 0 ≤ r) (h1 : r < 1) {s : Bool}
    (hs : s = true ↔ r ≠ 0) (hk : k ≤ 1) (hl : 2 ^ (k + 25) ≤ p) (hh : p < 2 ^ (k + 26))
    {u : ℤ} (hu : e - bias false - 23 = u + (k + 2)) :
    Norm false ⟨p * 2 ^ (27 - k), false, false, s⟩ e ((p + r) * 2 ^ u) := by
  have hs' : (p % 2 ^ k != 0 || s) = true ↔ p % 2 ^ k ≠ 0 ∨ r ≠ 0 := by
    rw [Bool.or_eq_true, bne_iff_ne, hs]
  obtain ⟨f, hf, hv⟩ := Tail.of_testBit h0 h1 hs'
  have hpow : (2 : K) ^ (e - bias false - 23) = 2 ^ (k + 2) * 2 ^ u := by
    rw [hu, add_comm u, zpow_add₀ two_ne_zero, ← zpow_natCast, Nat.cast_add, Nat.cast_ofNat]
  have hval : ((p : K) + r) * 2 ^ u = ((p / 2 ^ (k + 2) : ℕ) + f) * 2 ^ (e - bias false - 23) := by
    rw [hv, hpow, mul_assoc]
  have hbits : p * 2 ^ (27 - k) / 2 ^ 29 = p / 2 ^ (k + 2) ∧
      (p * 2 ^ (27 - k)).testBit 28 = p.testBit (k + 1) ∧
      (p * 2 ^ (27 - k)).testBit 27 = p.testBit k ∧
      (p * 2 ^ (27 - k) % 2 ^ 27 ≠ 0 ↔ p % 2 ^ k ≠ 0) := by
    simp only [Nat.testBit_eq_decide_div_mod_eq, decide_eq_decide]
    obtain rfl | rfl : k = 0 ∨ k = 1 := by omega
    · omega
    · omega
  obtain ⟨hsig, hg, hr, ht⟩ := hbits
  replace ht : (p * 2 ^ (27 - k) % 2 ^ 27 != 0) = (p % 2 ^ k != 0) := by
    rw [Bool.eq_iff_iff, bne_iff_ne, bne_iff_ne, ht]
  have hk' : 2 ^ (k + 25) * 2 ^ (27 - k) = 2 ^ 52 ∧ 2 ^ (k + 26) * 2 ^ (27 - k) = 2 ^ 53 := by
    constructor <;> rw [← pow_add] <;> congr 1 <;> omega
  refine ⟨?_, ?_, f, ?_, ?_⟩
  · exact hk'.1 ▸ Nat.mul_le_mul_right _ hl
  · exact hk'.2 ▸ (Nat.mul_lt_mul_right (Nat.two_pow_pos _)).2 hh
  · simp only [Sig.wG, Sig.wR, Sig.wS, Bool.false_eq_true, if_false, hg, hr, ht, Bool.or_false]
    exact hf
  · rw [hval]
    simp only [lastBit, fracBits, Bool.false_eq_true, if_false, hsig]
    rfl

/-- A number kept with a sticky bit, cut off `k + 1` bits above it. -/
theorem Norm.of_jam {v : K} {s k : ℕ} (h : Jam v s) (hk : 0 < k) (hsig : q.sig = s / 2 ^ (k + 1))
    (hg : q.gd = true ↔ 2 ^ k ≤ s % 2 ^ (k + 1)) (ht : (q.rd || q.sd) = true ↔ s % 2 ^ k ≠ 0)
    (hl : 2 ^ (k + 53) ≤ s) (hh : s < 2 ^ (k + 54)) {u : ℤ}
    (hu : e - bias fmt - 52 = u + (k + 1)) : Norm fmt q e (v * 2 ^ u) := by
  have heven : 2 ^ k % 2 = 0 := by
    rw [← Nat.succ_pred_eq_of_pos hk, pow_succ]
    exact Nat.mul_mod_left _ 2
  have htwo : 2 ^ (k + 1) = 2 * 2 ^ k := pow_succ' 2 k
  rw [htwo] at hg hsig
  obtain ⟨f, hf, hv⟩ := h.tail (Nat.two_pow_pos k) heven hg ht
  have hpow : (2 : K) ^ (e - bias fmt - 52) = 2 * (2 ^ k : ℕ) * 2 ^ u := by
    rw [hu, add_comm u, zpow_add₀ two_ne_zero, zpow_add_one₀ two_ne_zero, zpow_natCast]
    push_cast
    ring
  have hne : (2 : K) * (2 ^ k : ℕ) ≠ 0 := by positivity
  have hval : v * 2 ^ u = (q.sig + f) * 2 ^ (e - bias fmt - 52) := by
    rw [hpow, hsig, ← hv, ← mul_assoc, div_mul_cancel₀ _ hne]
  rw [hval]
  refine Norm.of_tail ?_ ?_ hf
  · rw [hsig, ← htwo, Nat.le_div_iff_mul_le (Nat.two_pow_pos _), ← pow_add]
    calc 2 ^ (52 + (k + 1)) = 2 ^ (k + 53) := by congr 1; omega
      _ ≤ s := hl
  · rw [hsig, ← htwo, Nat.div_lt_iff_lt_mul (Nat.two_pow_pos _), ← pow_add]
    calc s < 2 ^ (k + 54) := hh
      _ = 2 ^ (53 + (k + 1)) := by congr 1; omega

/-- The increment is that of the rounding rule. -/
theorem Sig.roundUp_eq (q : Sig) :
    q.roundUp fmt rm neg =
      Hw.roundUp rm neg (decide (q.sig / lastBit fmt % 2 = 1)) (q.wG fmt)
        (q.wR fmt || q.wS fmt) := by
  have hlsb : q.wLsb fmt = decide (q.sig / lastBit fmt % 2 = 1) := by
    cases fmt <;> simp [Sig.wLsb, lastBit, Nat.testBit_eq_decide_div_mod_eq]
  cases rm <;> simp only [Sig.roundUp, Hw.roundUp, Sig.inexact, hlsb, Bool.or_assoc]

/-- The rounded significand, at the last bit of the format. -/
theorem Sig.sumR_div (q : Sig) :
    q.sumR fmt rm neg / lastBit fmt =
      q.sig / lastBit fmt + (q.roundUp fmt rm neg).toNat := by
  rw [Sig.sumR]
  cases q.roundUp fmt rm neg with
  | false => rfl
  | true => exact Nat.add_div_right _ (lastBit_pos fmt)

/-- The carry of the rounding. -/
theorem Sig.carry_iff (q : Sig) (hq : q.sig < 2 ^ 53) :
    q.carry fmt rm neg = true ↔ 2 ^ (fracBits fmt + 1) ≤ q.sumR fmt rm neg / lastBit fmt := by
  have hlast : lastBit fmt ≤ 2 ^ 29 := by cases fmt <;> decide
  have hs : q.sumR fmt rm neg < 2 ^ 54 := by
    rw [Sig.sumR]
    split <;> omega
  have hpow : 2 ^ (fracBits fmt + 1) * lastBit fmt = 2 ^ 53 := by cases fmt <;> rfl
  rw [Nat.le_div_iff_mul_le (lastBit_pos fmt), hpow, Sig.carry, Nat.testBit_eq_decide_div_mod_eq,
    decide_eq_true_eq]
  omega

/-- **The stage rounds once.** -/
theorem Norm.roundsTo (h : Norm fmt q e x) :
    RoundsTo fmt rm neg x (q.expReal fmt rm neg e)
      (q.finalSig fmt rm neg / lastBit fmt) (q.inexact fmt) := by
  obtain ⟨f, hf, rfl⟩ := h.tail
  have hl := lastBit_pos fmt
  have hlow : 2 ^ fracBits fmt ≤ q.sig / lastBit fmt := by
    rw [Nat.le_div_iff_mul_le hl, Nat.mul_comm, lastBit_mul]
    exact h.low
  have hhigh : q.sig / lastBit fmt < 2 ^ (fracBits fmt + 1) := by
    rw [Nat.div_lt_iff_lt_mul hl, pow_succ, Nat.mul_right_comm, Nat.mul_comm _ (lastBit fmt),
      lastBit_mul]
    exact h.high
  have hv : ((q.sig / lastBit fmt : ℕ) + f) * 2 ^ (e - bias fmt - fracBits fmt) /
      2 ^ (e - bias fmt - fracBits fmt) = (q.sig / lastBit fmt : ℕ) + f :=
    mul_div_cancel_right₀ _ (zpow_ne_zero _ two_ne_zero)
  have hsum : q.sumR fmt rm neg / lastBit fmt ≤ 2 ^ (fracBits fmt + 1) := by
    have hup := Bool.toNat_le (q.roundUp fmt rm neg)
    rw [Sig.sumR_div]
    omega
  refine ⟨e - bias fmt - fracBits fmt, q.sumR fmt rm neg / lastBit fmt, ?_, ?_, ?_, ?_, ?_⟩
  · rw [hv]
    have : (2 : K) ^ fracBits fmt ≤ (q.sig / lastBit fmt : ℕ) := by exact_mod_cast hlow
    linarith [hf.nonneg]
  · rw [hv]
    have : ((q.sig / lastBit fmt : ℕ) : K) + 1 ≤ 2 ^ (fracBits fmt + 1) := by exact_mod_cast hhigh
    linarith [hf.lt_one]
  · rw [hv, Sig.sumR_div, Sig.roundUp_eq]
    exact hf.rounds rm neg _
  · rw [hv, Sig.sumR_div, Sig.roundUp_eq, Ne, hf.eq_rounded_iff, hf.eq_zero_iff, Sig.inexact,
      Bool.or_assoc, Bool.not_eq_false]
  · by_cases hc : q.carry fmt rm neg = true
    · have hr : q.sumR fmt rm neg / lastBit fmt = 2 ^ (fracBits fmt + 1) :=
        le_antisymm hsum ((q.carry_iff rm neg h.high).1 hc)
      have hm : q.finalSig fmt rm neg / lastBit fmt = 2 ^ fracBits fmt := by
        rw [Sig.finalSig, if_pos hc, Nat.div_div_eq_div_mul, Nat.mul_comm,
          ← Nat.div_div_eq_div_mul, hr, pow_succ, Nat.mul_div_cancel _ (by decide)]
      rw [if_pos hr, Sig.expReal, hc]
      refine ⟨hm, ?_⟩
      rw [Bool.toNat_true, Nat.cast_one]
      ring
    · have hr : ¬ q.sumR fmt rm neg / lastBit fmt = 2 ^ (fracBits fmt + 1) := fun he =>
        hc ((q.carry_iff rm neg h.high).2 he.ge)
      have hlt : q.sumR fmt rm neg < 2 ^ 53 := by
        by_contra hge
        have hpow : 2 ^ (fracBits fmt + 1) * lastBit fmt = 2 ^ 53 := by cases fmt <;> rfl
        exact hc ((q.carry_iff rm neg h.high).2
          ((Nat.le_div_iff_mul_le hl).2 (hpow.le.trans (not_lt.1 hge))))
      rw [if_neg hr, Sig.finalSig, if_neg hc, Nat.mod_eq_of_lt hlt, Sig.expReal,
        eq_false_of_ne_true hc]
      refine ⟨rfl, ?_⟩
      rw [Bool.toNat_false, Nat.cast_zero]
      ring

/-- The significand that is packed keeps its top bit. -/
theorem Sig.finalSig_bounds (q : Sig) (hl : 2 ^ 52 ≤ q.sig) (hh : q.sig < 2 ^ 53) :
    2 ^ 52 ≤ q.finalSig fmt rm neg ∧ q.finalSig fmt rm neg < 2 ^ 53 := by
  have hlast : lastBit fmt ≤ 2 ^ 29 := by cases fmt <;> decide
  have hs : q.sig ≤ q.sumR fmt rm neg ∧ q.sumR fmt rm neg ≤ q.sig + lastBit fmt := by
    rw [Sig.sumR]
    split <;> omega
  rw [Sig.finalSig, Sig.carry, Nat.testBit_eq_decide_div_mod_eq]
  split
  · rename_i hc
    rw [decide_eq_true_eq] at hc
    omega
  · rename_i hc
    rw [decide_eq_true_eq] at hc
    omega

/-- The fields of a result in the normal range. -/
theorem Sig.normY_eq (q : Sig) (hl : 2 ^ 52 ≤ q.sig) (hh : q.sig < 2 ^ 53)
    (h0 : 0 < q.expReal fmt rm neg e) (h1 : q.expReal fmt rm neg e < infExp fmt) :
    q.normY fmt rm neg e =
      word fmt neg (q.expReal fmt rm neg e).toNat
        (q.finalSig fmt rm neg / lastBit fmt - 2 ^ fracBits fmt) := by
  have hb : 2 ^ 52 ≤ q.finalSig fmt rm neg ∧ q.finalSig fmt rm neg < 2 ^ 53 :=
    q.finalSig_bounds rm neg hl hh
  have hinf : infExp fmt ≤ 2047 := by cases fmt <;> decide
  have he : q.expReal fmt rm neg e % 2 ^ 11 = q.expReal fmt rm neg e :=
    Int.emod_eq_of_lt h0.le (by omega)
  have hf : q.finalSig fmt rm neg % 2 ^ 52 / lastBit fmt =
      q.finalSig fmt rm neg / lastBit fmt - 2 ^ fracBits fmt := by
    rw [Nat.mod_eq_sub_mod hb.1, Nat.mod_eq_of_lt (by omega), ← lastBit_mul fmt,
      Nat.sub_mul_div]
  rw [Sig.normY, he, hf]

/-- **The stage is correct** on a result that is not below the normal range. -/
theorem Norm.correct (h : Norm fmt q e x) (hu : q.underflow fmt rm neg e = false) :
    Correct fmt rm neg x (q.packed fmt rm neg e)
      ⟨false, false, q.overflow fmt rm neg e, false,
        q.inexact fmt || q.overflow fmt rm neg e⟩ := by
  refine ⟨_, _, _, h.roundsTo rm neg, ?_, rfl⟩
  have h0 : 0 < q.expReal fmt rm neg e := by
    have := of_decide_eq_false hu
    omega
  rw [Sig.packed, encode]
  by_cases ho : (infExp fmt : ℤ) ≤ q.expReal fmt rm neg e
  · have hd : q.overflow fmt rm neg e = true := decide_eq_true ho
    rw [if_pos hd, if_pos ho, Sig.ovfY]
  · have hd : q.overflow fmt rm neg e = false := decide_eq_false ho
    rw [if_neg (Bool.eq_false_iff.1 hd), if_neg ho,
      q.normY_eq rm neg h.low h.high h0 (by omega)]

/-- The underflow of the stage is that of the rounded number. -/
theorem Norm.underflow_iff (h : Norm fmt q e x) :
    q.underflow fmt rm neg e = true ↔ Tiny fmt rm neg x := by
  constructor
  · intro hu
    exact ⟨_, _, _, h.roundsTo rm neg, of_decide_eq_true hu⟩
  · rintro ⟨e', m, i, hr, he⟩
    obtain ⟨rfl, -, -⟩ := hr.unique (h.roundsTo rm neg)
    exact decide_eq_true he

/-! ## A number of the format -/

theorem lastBit_dvd_frac (fmt : Bool) (a : BitVec 64) : frac fmt a % lastBit fmt = 0 := by
  cases fmt with
  | true => exact Nat.mod_one _
  | false => exact Nat.mul_mod_left _ _

/-- The significand of an operand has no tail. -/
theorem sig_mod_lastBit (fmt : Bool) (a : BitVec 64) : sig fmt a % lastBit fmt = 0 := by
  have hf := lastBit_dvd_frac fmt a
  have h52 : 2 ^ 52 % lastBit fmt = 0 := by cases fmt <;> rfl
  rw [sig, Nat.add_mod, hf, h52]
  exact Nat.zero_mod _

theorem norm_of_sig (fmt : Bool) (a : BitVec 64) :
    Norm fmt ⟨sig fmt a, false, false, false⟩ (exp fmt a) (mag K fmt a) := by
  rw [mag, ← add_zero (sig fmt a : K)]
  exact Norm.of_tail (q := ⟨_, _, _, _⟩) (sig_bounds fmt a).1 (sig_bounds fmt a).2 Tail.zero

/-- The rounding stage leaves a significand without a tail alone. -/
theorem exact_of_mod {fmt : Bool} {n : ℕ} (hh : n < 2 ^ 53) (hmod : n % lastBit fmt = 0)
    (rm : RoundMode) (neg : Bool) :
    let q : Sig := ⟨n, false, false, false⟩
    q.inexact fmt = false ∧ q.carry fmt rm neg = false ∧ q.finalSig fmt rm neg = n := by
  intro q
  have hbits : q.wG fmt = false ∧ q.wR fmt = false ∧ q.wS fmt = false := by
    cases fmt with
    | true => exact ⟨rfl, rfl, rfl⟩
    | false =>
      simp only [lastBit, Bool.false_eq_true, if_false] at hmod
      simp only [q, Sig.wG, Sig.wR, Sig.wS, Bool.false_eq_true, if_false, Bool.or_false,
        Nat.testBit_eq_decide_div_mod_eq, decide_eq_false_iff_not, bne_eq_false_iff_eq]
      omega
  obtain ⟨hg, hr, hs⟩ := hbits
  have hin : q.inexact fmt = false := by rw [Sig.inexact, hg, hr, hs]; rfl
  have hup : q.roundUp fmt rm neg = false := by cases rm <;> simp [Sig.roundUp, hg, hin]
  have hsum : q.sumR fmt rm neg = n := by simp [Sig.sumR, hup, q]
  have hcarry : q.carry fmt rm neg = false := by
    rw [Sig.carry, hsum, Nat.testBit_eq_decide_div_mod_eq, decide_eq_false_iff_not]
    omega
  refine ⟨hin, hcarry, ?_⟩
  rw [Sig.finalSig, hcarry, if_neg Bool.false_ne_true, hsum, Nat.mod_eq_of_lt hh]

/-- A number of the format is its own rounding. -/
theorem correct_self {fmt : Bool} {a : BitVec 64} (ha : Normal fmt a) (rm : RoundMode)
    (neg : Bool) :
    Correct fmt rm neg (mag K fmt a) (word fmt neg (exp fmt a) (frac fmt a / lastBit fmt))
      ⟨false, false, false, false, false⟩ := by
  obtain ⟨hin, hcarry, hfinal⟩ :=
    exact_of_mod (sig_bounds fmt a).2 (sig_mod_lastBit fmt a) rm neg
  obtain ⟨h0, h1⟩ := ha
  have hinf : infExp fmt ≤ 2047 := by cases fmt <;> decide
  have hfrac := frac_lt fmt a
  have hexp : (⟨sig fmt a, false, false, false⟩ : Sig).expReal fmt rm neg (exp fmt a) =
      exp fmt a := by
    rw [Sig.expReal, hcarry]
    exact add_zero _
  have hu : (⟨sig fmt a, false, false, false⟩ : Sig).underflow fmt rm neg (exp fmt a) = false := by
    rw [Sig.underflow, hexp, decide_eq_false_iff_not]
    omega
  have ho : (⟨sig fmt a, false, false, false⟩ : Sig).overflow fmt rm neg (exp fmt a) = false := by
    rw [Sig.overflow, hexp, decide_eq_false_iff_not]
    omega
  have hword : (⟨sig fmt a, false, false, false⟩ : Sig).packed fmt rm neg (exp fmt a) =
      word fmt neg (exp fmt a) (frac fmt a / lastBit fmt) := by
    have he : ((exp fmt a : ℤ) % 2 ^ 11).toNat = exp fmt a := by omega
    have hf : sig fmt a % 2 ^ 52 = frac fmt a := by rw [sig]; omega
    rw [Sig.packed, ho, if_neg Bool.false_ne_true, Sig.normY, hexp, hfinal, he, hf]
  have hc := (norm_of_sig (K := K) fmt a).correct rm neg hu
  rwa [hword, ho, hin] at hc

end Norm

end R9999.Fpu
