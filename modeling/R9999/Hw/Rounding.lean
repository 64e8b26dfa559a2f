import Mathlib.Algebra.Order.Field.Basic
import Mathlib.Algebra.Order.Field.Power
import Mathlib.Algebra.Order.AbsoluteValue.Basic
import Mathlib.Tactic.Linarith
import Mathlib.Tactic.FieldSimp
import Mathlib.Tactic.NormNum
import Mathlib.Tactic.Positivity
import Mathlib.Tactic.Ring
import R9999.Hw.Sizes

/-!
# Rounding to an integer

`Rounds` says that an integer is a non-negative number rounded once, in one of the four
modes; the sign is kept apart, since two of the modes depend on it.  A rounder has the integer
below the number and two bits of what follows: the first, and whether any other is set
(`Tail`).  `Tail.rounds` is the rule that these bits suffice.

`Jam` is the number as a shifter with a sticky bit leaves it: the integer below, with its last
bit set when anything was lost.  `Jam.tail` recovers the bits of a coarser rounding from it.
-/

namespace Hw

instance atLeastTwo_two : Nat.AtLeastTwo 2 := ⟨Nat.le_refl 2⟩

/-- The four rounding modes. -/
inductive RoundMode where
  | nearest | zero | up | down
  deriving DecidableEq, Repr

section Rounds

variable {K : Type*} [Field K] [LinearOrder K] [IsStrictOrderedRing K]

/-- The integer below a number. -/
def RoundsBelow (v : K) (r : ℕ) : Prop := (r : K) ≤ v ∧ v < r + 1

/-- The integer above a number. -/
def RoundsAbove (v : K) (r : ℕ) : Prop := v ≤ (r : K) ∧ (r : K) < v + 1

/-- An integer nearest to a number, the even one of two. -/
def RoundsNearest (v : K) (r : ℕ) : Prop := |v - r| ≤ 1 / 2 ∧ (|v - r| = 1 / 2 → r % 2 = 0)

/-- `r` is the magnitude `v` of a number, negative or not, rounded in the mode. -/
def Rounds (mode : RoundMode) (neg : Bool) (v : K) (r : ℕ) : Prop :=
  match mode with
  | .nearest => RoundsNearest v r
  | .zero => RoundsBelow v r
  | .up => if neg then RoundsBelow v r else RoundsAbove v r
  | .down => if neg then RoundsAbove v r else RoundsBelow v r

theorem RoundsBelow.unique {v : K} {r s : ℕ} (h : RoundsBelow v r) (k : RoundsBelow v s) :
    r = s := by
  have h1 : (r : K) < (s : K) + 1 := h.1.trans_lt k.2
  have h2 : (s : K) < (r : K) + 1 := k.1.trans_lt h.2
  have h3 : r < s + 1 := by exact_mod_cast h1
  have h4 : s < r + 1 := by exact_mod_cast h2
  omega

theorem RoundsAbove.unique {v : K} {r s : ℕ} (h : RoundsAbove v r) (k : RoundsAbove v s) :
    r = s := by
  have h1 : (r : K) < (s : K) + 1 := by linarith [h.2, k.1]
  have h2 : (s : K) < (r : K) + 1 := by linarith [k.2, h.1]
  have h3 : r < s + 1 := by exact_mod_cast h1
  have h4 : s < r + 1 := by exact_mod_cast h2
  omega

theorem RoundsNearest.unique {v : K} {r s : ℕ} (h : RoundsNearest v r) (k : RoundsNearest v s) :
    r = s := by
  by_contra hne
  wlog hlt : r < s generalizing r s
  · exact this k h (fun he => hne he.symm) (by omega)
  obtain ⟨hr, hr'⟩ := abs_le.1 h.1
  obtain ⟨hs, hs'⟩ := abs_le.1 k.1
  have hle : (r : K) + 1 ≤ s := by exact_mod_cast hlt
  -- both are at distance one half, so consecutive and both even
  have hv : v = r + 1 / 2 := by linarith
  have hs1 : (s : K) = r + 1 := by linarith
  have her := h.2 (by rw [hv, add_sub_cancel_left]; norm_num)
  have hes := k.2 (by rw [hv, hs1, add_sub_add_left_eq_sub]; norm_num)
  have hsn : s = r + 1 := by exact_mod_cast hs1
  omega

/-- A number has one rounding. -/
theorem Rounds.unique {mode : RoundMode} {neg : Bool} {v : K} {r s : ℕ}
    (h : Rounds mode neg v r) (k : Rounds mode neg v s) : r = s := by
  cases mode with
  | nearest => exact RoundsNearest.unique h k
  | zero => exact RoundsBelow.unique h k
  | up =>
    cases neg with
    | false => exact RoundsAbove.unique h k
    | true => exact RoundsBelow.unique h k
  | down =>
    cases neg with
    | false => exact RoundsBelow.unique h k
    | true => exact RoundsAbove.unique h k

/-! ## Guard and sticky -/

/-- A fraction by its first bit and whether anything follows it. -/
structure Tail (f : K) (g t : Bool) : Prop where
  nonneg : 0 ≤ f
  lt_one : f < 1
  guard : g = true ↔ 1 / 2 ≤ f
  rest : t = true ↔ f ≠ 0 ∧ f ≠ 1 / 2

/-- The increment of a rounder, from the last bit it keeps and the two of the tail. -/
def roundUp (mode : RoundMode) (neg odd g t : Bool) : Bool :=
  match mode with
  | .nearest => g && (t || odd)
  | .zero => false
  | .up => !neg && (g || t)
  | .down => neg && (g || t)

namespace Tail

variable {f : K} {g t : Bool}

/-- No fraction. -/
theorem zero : Tail (0 : K) false false := ⟨le_rfl, one_pos, by norm_num, by simp⟩

theorem eq_zero_iff (h : Tail f g t) : f = 0 ↔ (g || t) = false := by
  rw [Bool.or_eq_false_iff, ← Bool.not_eq_true, ← Bool.not_eq_true, h.guard, h.rest]
  constructor
  · rintro rfl
    norm_num
  · rintro ⟨h1, h2⟩
    by_contra hf
    refine h2 ⟨hf, fun he => h1 he.ge⟩

theorem below (h : Tail f g t) (n : ℕ) : RoundsBelow ((n : K) + f) n :=
  ⟨by linarith [h.nonneg], by linarith [h.lt_one]⟩

theorem above (h : Tail f g t) (n : ℕ) :
    RoundsAbove ((n : K) + f) (n + (g || t).toNat) := by
  cases hgt : (g || t) with
  | false =>
    have hf := h.eq_zero_iff.2 hgt
    subst hf
    exact ⟨by simp, by simp⟩
  | true =>
    have hf : 0 < f := lt_of_le_of_ne h.nonneg fun he => by
      have := h.eq_zero_iff.1 he.symm
      rw [hgt] at this
      exact Bool.noConfusion this
    have hc : ((n + Bool.toNat true : ℕ) : K) = n + 1 := by simp
    refine ⟨?_, ?_⟩
    · rw [hc]
      linarith [h.lt_one]
    · rw [hc]
      linarith

theorem nearest (h : Tail f g t) (n : ℕ) :
    RoundsNearest ((n : K) + f) (n + (g && (t || decide (n % 2 = 1))).toNat) := by
  have h0 := h.nonneg
  have h1 := h.lt_one
  by_cases hg : 1 / 2 ≤ f
  · rw [h.guard.2 hg, Bool.true_and]
    by_cases ht : f = 1 / 2
    · have htf : t = false := by
        rw [← Bool.not_eq_true, h.rest]
        exact fun hc => hc.2 ht
      rw [htf, Bool.false_or]
      by_cases hn : n % 2 = 1
      · have hc : ((n + (decide (n % 2 = 1)).toNat : ℕ) : K) = n + 1 := by simp [hn]
        refine ⟨?_, fun _ => by simp [hn]; omega⟩
        rw [hc, ht, add_sub_add_left_eq_sub]
        norm_num
      · have hc : ((n + (decide (n % 2 = 1)).toNat : ℕ) : K) = n := by simp [hn]
        refine ⟨?_, fun _ => by simp [hn]; omega⟩
        rw [hc, ht, add_sub_cancel_left]
        norm_num
    · have htt : t = true := h.rest.2 ⟨fun he => by norm_num [he] at hg, ht⟩
      have hlt : 1 / 2 < f := lt_of_le_of_ne hg (Ne.symm ht)
      have hc : ((n + (t || decide (n % 2 = 1)).toNat : ℕ) : K) = n + 1 := by simp [htt]
      have habs : |(n : K) + f - ((n + (t || decide (n % 2 = 1)).toNat : ℕ) : K)| = 1 - f := by
        rw [hc, add_sub_add_left_eq_sub, abs_of_neg (by linarith)]
        ring
      refine ⟨by rw [habs]; linarith, fun he => ?_⟩
      rw [habs] at he
      exact absurd (by linarith : f = 1 / 2) ht
  · have hgf : g = false := by
      rw [← Bool.not_eq_true, h.guard]
      exact hg
    have hc : ((n + (g && (t || decide (n % 2 = 1))).toNat : ℕ) : K) = n := by simp [hgf]
    have hlt : f < 1 / 2 := lt_of_not_ge hg
    refine ⟨?_, fun he => ?_⟩
    · rw [hc, add_sub_cancel_left, abs_of_nonneg h0]
      exact hlt.le
    · rw [hc, add_sub_cancel_left, abs_of_nonneg h0] at he
      exact absurd he hlt.ne

/-- **The rounding rule.**  The integer below, incremented by what the two bits of the tail
say. -/
theorem rounds (h : Tail f g t) (mode : RoundMode) (neg : Bool) (n : ℕ) :
    Rounds mode neg ((n : K) + f) (n + (roundUp mode neg (decide (n % 2 = 1)) g t).toNat) := by
  cases mode with
  | nearest => exact h.nearest n
  | zero => exact h.below n
  | up =>
    cases neg with
    | false => exact h.above n
    | true => exact h.below n
  | down =>
    cases neg with
    | false => exact h.below n
    | true => exact h.above n

/-- Nothing is lost exactly when there is no tail. -/
theorem eq_rounded_iff (h : Tail f g t) (mode : RoundMode) (neg odd : Bool) (n : ℕ) :
    (n : K) + f = (n + (roundUp mode neg odd g t).toNat : ℕ) ↔ f = 0 := by
  constructor
  · intro he
    cases hup : roundUp mode neg odd g t with
    | false => simpa [hup] using he
    | true =>
      have h1 : f = 1 := by simpa [hup] using he
      exact absurd h1 h.lt_one.ne
  · intro hf
    have hgt := h.eq_zero_iff.1 hf
    obtain ⟨rfl, rfl⟩ := Bool.or_eq_false_iff.1 hgt
    cases mode <;> simp [roundUp, hf]

/-- The tail that integer bits and what lies under them make together. -/
theorem of_bits {H R : ℕ} {e : K} (hR : R < 2 * H) (h0 : 0 ≤ e) (h1 : e < 1)
    (hg : g = true ↔ H ≤ R) (ht : t = true ↔ R % H ≠ 0 ∨ e ≠ 0) :
    Tail ((R + e) / (2 * H)) g t := by
  have hH : 0 < H := by omega
  have hK : (0 : K) < 2 * H := by exact_mod_cast Nat.mul_pos (by decide) hH
  have hRK : (R : K) + 1 ≤ 2 * H := by exact_mod_cast hR
  have hR0 : (0 : K) ≤ R := Nat.cast_nonneg R
  have hhalf : 1 / 2 ≤ ((R : K) + e) / (2 * H) ↔ H ≤ R := by
    rw [le_div_iff₀ hK, show (1 / 2 : K) * (2 * H) = H by ring]
    constructor
    · intro h
      by_contra hlt
      have : (R : K) + 1 ≤ H := by exact_mod_cast not_le.1 hlt
      linarith
    · intro h
      have : (H : K) ≤ R := by exact_mod_cast h
      linarith
  have hz : ((R : K) + e) / (2 * H) = 0 ↔ R = 0 ∧ e = 0 := by
    rw [div_eq_zero_iff]
    constructor
    · rintro (h | h)
      · have hR' : (R : K) = 0 := by linarith
        exact ⟨by exact_mod_cast hR', by linarith⟩
      · exact absurd h hK.ne'
    · rintro ⟨rfl, rfl⟩
      simp
  have hm : ((R : K) + e) / (2 * H) = 1 / 2 ↔ R = H ∧ e = 0 := by
    rw [div_eq_iff hK.ne', show (1 / 2 : K) * (2 * H) = H by ring]
    constructor
    · intro h
      have hle : R ≤ H := by
        have : (R : K) ≤ H := by linarith
        exact_mod_cast this
      have hge : H ≤ R := by
        by_contra hlt
        have : (R : K) + 1 ≤ H := by exact_mod_cast not_le.1 hlt
        linarith
      obtain rfl : R = H := le_antisymm hle hge
      exact ⟨rfl, by linarith⟩
    · rintro ⟨rfl, rfl⟩
      ring
  refine ⟨div_nonneg (by linarith) hK.le, ?_, hg.trans hhalf.symm, ?_⟩
  · rw [div_lt_one hK]
    linarith
  · simp only [ht, ne_eq, hz, hm]
    by_cases he : e = 0
    · simp only [he, and_true, not_true_eq_false, or_false]
      constructor
      · intro h
        refine ⟨fun hr => h (by simp [hr]), fun hr => h (by simp [hr])⟩
      · rintro ⟨hr0, hrH⟩ hmod
        rcases Nat.lt_or_ge R H with hlt | hge
        · exact hr0 (by rwa [Nat.mod_eq_of_lt hlt] at hmod)
        · rw [Nat.mod_eq_sub_mod hge, Nat.mod_eq_of_lt (by omega)] at hmod
          omega
    · simp [he]

/-- The tail under the bit `k + 2` of a binary number: its guard and round bits, and a sticky
bit for those below and for a remainder. -/
theorem of_testBit {p k : ℕ} {e : K} (h0 : 0 ≤ e) (h1 : e < 1) {s : Bool}
    (hs : s = true ↔ p % 2 ^ k ≠ 0 ∨ e ≠ 0) :
    ∃ f, Tail f (p.testBit (k + 1)) (p.testBit k || s) ∧
      (p : K) + e = ((p / 2 ^ (k + 2) : ℕ) + f) * 2 ^ (k + 2) := by
  have hpos : 0 < 2 ^ k := Nat.two_pow_pos k
  have hhigh : p % 2 ^ (k + 2) = p % 2 ^ (k + 1) + 2 ^ (k + 1) * (p / 2 ^ (k + 1) % 2) :=
    Nat.mod_pow_succ
  have hlow : p % 2 ^ (k + 1) = p % 2 ^ k + 2 ^ k * (p / 2 ^ k % 2) := Nat.mod_pow_succ
  have hlt : p % 2 ^ (k + 1) < 2 ^ (k + 1) := Nat.mod_lt _ (Nat.two_pow_pos _)
  have hmod : p % 2 ^ (k + 2) % 2 ^ (k + 1) = p % 2 ^ (k + 1) :=
    Nat.mod_mod_of_dvd _ (pow_dvd_pow 2 (Nat.le_succ (k + 1)))
  refine ⟨((p % 2 ^ (k + 2) : ℕ) + e) / (2 * (2 ^ (k + 1) : ℕ)), ?_, ?_⟩
  · refine of_bits ?_ h0 h1 ?_ ?_
    · rw [← pow_succ']
      exact Nat.mod_lt _ (Nat.two_pow_pos _)
    · rw [Nat.testBit_eq_decide_div_mod_eq, decide_eq_true_eq, hhigh]
      rcases Nat.mod_two_eq_zero_or_one (p / 2 ^ (k + 1)) with hb | hb <;> rw [hb] <;> omega
    · rw [Bool.or_eq_true, hs, hmod, hlow, Nat.testBit_eq_decide_div_mod_eq, decide_eq_true_eq]
      rcases Nat.mod_two_eq_zero_or_one (p / 2 ^ k) with hb | hb
      · rw [hb, Nat.mul_zero, Nat.add_zero]
        exact or_iff_right (by decide)
      · rw [hb]
        exact iff_of_true (.inl rfl) (.inl (by omega))
  · have hsplit : (p : K) = 2 ^ (k + 2) * (p / 2 ^ (k + 2) : ℕ) + (p % 2 ^ (k + 2) : ℕ) := by
      exact_mod_cast (Nat.div_add_mod p (2 ^ (k + 2))).symm
    have hpow : (2 * (2 ^ (k + 1) : ℕ) : K) = 2 ^ (k + 2) := by
      push_cast
      ring
    have hne : (2 : K) ^ (k + 2) ≠ 0 := pow_ne_zero _ two_ne_zero
    rw [hpow, add_mul, div_mul_cancel₀ _ hne, mul_comm, ← add_assoc, ← hsplit]

end Tail

/-! ## A sticky bit -/

/-- `s` is the integer below `v`, its last bit set when `v` is no integer. -/
def Jam (v : K) (s : ℕ) : Prop :=
  ∃ (n : ℕ) (e : K), 0 ≤ e ∧ e < 1 ∧ v = n + e ∧
    ((e = 0 ∧ s = n) ∨ (e ≠ 0 ∧ s = n / 2 * 2 + 1))

theorem Jam.of_nat (n : ℕ) : Jam (n : K) n :=
  ⟨n, 0, le_rfl, one_pos, (add_zero _).symm, .inl ⟨rfl, rfl⟩⟩

/-- A jammed number is zero when the number is. -/
theorem Jam.eq_zero_iff {v : K} {s : ℕ} (h : Jam v s) : v = 0 ↔ s = 0 := by
  obtain ⟨n, e, h0, -, rfl, hs⟩ := h
  have hn : (0 : K) ≤ n := Nat.cast_nonneg n
  constructor
  · intro hv
    have he : e = 0 := by linarith
    have hn0 : (n : K) = 0 := by linarith
    rcases hs with ⟨-, rfl⟩ | ⟨hne, -⟩
    · exact_mod_cast hn0
    · exact absurd he hne
  · intro hv
    rcases hs with ⟨rfl, rfl⟩ | ⟨-, rfl⟩
    · rw [hv, Nat.cast_zero, add_zero]
    · omega

theorem Jam.nonneg {v : K} {s : ℕ} (h : Jam v s) : 0 ≤ v := by
  obtain ⟨n, e, h0, -, rfl, -⟩ := h
  exact add_nonneg (Nat.cast_nonneg n) h0

/-- Setting the last bit. -/
theorem or_one_eq (n : ℕ) : n ||| 1 = n / 2 * 2 + 1 := by
  have h1 : n / 2 * 2 + 1 = 2 ^ 1 * (n / 2) ||| 1 := by
    rw [← Nat.two_pow_add_eq_or_of_lt (by decide)]
    omega
  have h2 : n = 2 ^ 1 * (n / 2) ||| n % 2 := by
    rw [← Nat.two_pow_add_eq_or_of_lt (Nat.mod_lt n (by decide))]
    omega
  rw [h1]
  nth_rewrite 1 [h2]
  rw [Nat.or_assoc]
  rcases Nat.mod_two_eq_zero_or_one n with h | h <;> rw [h] <;> rfl

/-- A right shift that keeps a sticky bit. -/
theorem Jam.shiftRight (m d : ℕ) :
    Jam ((m : K) / 2 ^ d) (m / 2 ^ d ||| (m % 2 ^ d != 0).toNat) := by
  have hd : (0 : K) < 2 ^ d := pow_pos two_pos d
  have hsplit : (m : K) = 2 ^ d * (m / 2 ^ d : ℕ) + (m % 2 ^ d : ℕ) := by
    exact_mod_cast (Nat.div_add_mod m (2 ^ d)).symm
  have hlt : ((m % 2 ^ d : ℕ) : K) < 2 ^ d := by
    exact_mod_cast Nat.mod_lt m (Nat.two_pow_pos d)
  refine ⟨m / 2 ^ d, (m % 2 ^ d : ℕ) / 2 ^ d, by positivity, (div_lt_one hd).2 hlt, ?_, ?_⟩
  · rw [eq_comm, ← mul_div_cancel_left₀ ((m / 2 ^ d : ℕ) : K) hd.ne', ← add_div, ← hsplit]
  · by_cases h : m % 2 ^ d = 0
    · exact .inl ⟨by rw [h]; simp, by rw [h]; exact Nat.or_zero _⟩
    · refine .inr ⟨div_ne_zero (Nat.cast_ne_zero.2 h) hd.ne', ?_⟩
      rw [bne_iff_ne.2 h, Bool.toNat_true, or_one_eq]

omit [IsStrictOrderedRing K] in
/-- A sticky bit survives an addition of an even number. -/
theorem Jam.add_even {v : K} {s : ℕ} (h : Jam v s) {A : ℕ} (hA : A % 2 = 0) :
    Jam (A + v) (A + s) := by
  obtain ⟨n, e, h0, h1, rfl, hs⟩ := h
  refine ⟨A + n, e, h0, h1, by push_cast; ring, ?_⟩
  rcases hs with ⟨he, rfl⟩ | ⟨he, rfl⟩
  · exact .inl ⟨he, rfl⟩
  · exact .inr ⟨he, by omega⟩

/-- A sticky bit survives a subtraction from an even number. -/
theorem Jam.even_sub {v : K} {s : ℕ} (h : Jam v s) {A : ℕ} (hA : A % 2 = 0) (hle : s ≤ A) :
    Jam (A - v) (A - s) := by
  obtain ⟨n, e, h0, h1, rfl, hs⟩ := h
  rcases hs with ⟨rfl, rfl⟩ | ⟨he, rfl⟩
  · refine ⟨A - s, 0, le_rfl, one_pos, ?_, .inl ⟨rfl, rfl⟩⟩
    rw [Nat.cast_sub hle]
    ring
  · -- what was lost of the subtrahend comes back as what is lost of a difference one smaller
    have hn : n + 1 ≤ A := by omega
    refine ⟨A - (n + 1), 1 - e, by linarith, ?_, ?_, .inr ⟨?_, by omega⟩⟩
    · linarith [lt_of_le_of_ne h0 (Ne.symm he)]
    · rw [Nat.cast_sub hn]
      push_cast
      ring
    · exact sub_ne_zero.2 h1.ne'

/-- Setting the last bit does not reach past an even modulus. -/
theorem jam_div_mod (n : ℕ) {M : ℕ} (hM : 0 < M) (heven : M % 2 = 0) :
    (n / 2 * 2 + 1) / M = n / M ∧ (n / 2 * 2 + 1) % M = n % M / 2 * 2 + 1 := by
  obtain ⟨k, rfl⟩ : ∃ k, M = 2 * k := ⟨M / 2, by omega⟩
  have hr : n % (2 * k) < 2 * k := Nat.mod_lt _ hM
  have hn : n / 2 * 2 + 1 = n % (2 * k) / 2 * 2 + 1 + 2 * k * (n / (2 * k)) := by
    have h := Nat.div_add_mod n (2 * k)
    have h2 : 2 * k * (n / (2 * k)) = 2 * (k * (n / (2 * k))) := Nat.mul_assoc _ _ _
    omega
  have hlt : n % (2 * k) / 2 * 2 + 1 < 2 * k := by omega
  rw [hn, Nat.add_mul_div_left _ _ hM, Nat.add_mul_mod_self_left, Nat.div_eq_of_lt hlt,
    Nat.mod_eq_of_lt hlt, Nat.zero_add]
  exact ⟨rfl, rfl⟩

/-- The tail of a coarser rounding of a jammed number. -/
theorem Jam.tail {v : K} {s : ℕ} (h : Jam v s) {H : ℕ} (hH : 0 < H) (heven : H % 2 = 0)
    {g t : Bool} (hg : g = true ↔ H ≤ s % (2 * H)) (ht : t = true ↔ s % H ≠ 0) :
    ∃ f, Tail f g t ∧ v / (2 * H) = (s / (2 * H) : ℕ) + f := by
  obtain ⟨n, e, h0, h1, rfl, hs⟩ := h
  have hK : (0 : K) < 2 * H := by exact_mod_cast Nat.mul_pos (by decide) hH
  have hmod : n % (2 * H) % H = n % H := Nat.mod_mod_of_dvd n (Nat.dvd_mul_left H 2)
  have hquot : s / (2 * H) = n / (2 * H) := by
    rcases hs with ⟨-, rfl⟩ | ⟨-, rfl⟩
    · rfl
    · exact (jam_div_mod n (by omega) (Nat.mul_mod_right 2 H)).1
  refine ⟨((n % (2 * H) : ℕ) + e) / (2 * H), ?_, ?_⟩
  · refine Tail.of_bits (Nat.mod_lt _ (by omega)) h0 h1 (hg.trans ?_) (ht.trans ?_)
    · rcases hs with ⟨-, rfl⟩ | ⟨-, rfl⟩
      · exact Iff.rfl
      · rw [(jam_div_mod n (by omega) (Nat.mul_mod_right 2 H)).2]
        omega
    · rcases hs with ⟨rfl, rfl⟩ | ⟨he, rfl⟩
      · rw [hmod]
        simp
      · rw [(jam_div_mod n hH heven).2]
        simp [he]
  · have hsplit : (n : K) = 2 * H * (n / (2 * H) : ℕ) + (n % (2 * H) : ℕ) := by
      exact_mod_cast (Nat.div_add_mod n (2 * H)).symm
    rw [hquot, ← mul_div_cancel_left₀ ((n / (2 * H) : ℕ) : K) hK.ne', ← add_div, hsplit]
    ring

end Rounds

end Hw
