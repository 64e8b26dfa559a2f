import Mathlib.Data.Nat.Size
import R9999.Hw.Sizes

/-!
# Leading zeros

A tree of leading-zero counters, and the position of the highest bit of a number.
-/

namespace Hw

/-- The leading zeros of a word of `2 ^ (lg + 2)` bits, by halves down to four bits. -/
def countLeadingZeros : Nat → Nat → Nat
  | 0, x => if x = 0 then 4 else if x = 1 then 3 else if x < 4 then 2 else if x < 8 then 1 else 0
  | lg + 1, x =>
    let half := 2 ^ (lg + 2)
    if x / 2 ^ half = 0 then half + countLeadingZeros lg (x % 2 ^ half)
    else countLeadingZeros lg (x / 2 ^ half)

/-- The size of a number, by its upper bits. -/
theorem size_div {x n : Nat} (h : x / 2 ^ n ≠ 0) : x.size = (x / 2 ^ n).size + n := by
  refine Nat.le_antisymm ?_ ?_
  · rw [Nat.size_le, Nat.pow_add, ← Nat.div_lt_iff_lt_mul (Nat.two_pow_pos n)]
    exact Nat.lt_size_self _
  · obtain ⟨k, hk⟩ : ∃ k, (x / 2 ^ n).size = k + 1 :=
      ⟨(x / 2 ^ n).size - 1, by have := Nat.size_pos.mpr (Nat.pos_of_ne_zero h); omega⟩
    have hbit : 2 ^ k ≤ x / 2 ^ n := Nat.lt_size.mp (by omega)
    rw [hk, Nat.add_right_comm, Nat.succ_le_iff, Nat.lt_size, Nat.pow_add]
    exact (Nat.le_div_iff_mul_le (Nat.two_pow_pos n)).mp hbit

/-- The leading zeros are what the size leaves. -/
theorem countLeadingZeros_add_size (lg x : Nat) (hx : x < 2 ^ 2 ^ (lg + 2)) :
    countLeadingZeros lg x + x.size = 2 ^ (lg + 2) := by
  induction lg generalizing x with
  | zero =>
    have h : ∀ y < 16, countLeadingZeros 0 y + y.size = 4 := by decide
    exact h x hx
  | succ lg ih =>
    have hpow : 2 ^ (lg + 1 + 2) = 2 ^ (lg + 2) + 2 ^ (lg + 2) := by
      rw [Nat.pow_succ 2 (lg + 2)]
      omega
    rw [hpow] at hx ⊢
    have hpos := Nat.two_pow_pos (2 ^ (lg + 2))
    unfold countLeadingZeros
    dsimp only
    split
    case isTrue hzero =>
      have hlt : x < 2 ^ 2 ^ (lg + 2) := by
        rw [Nat.div_eq_zero_iff] at hzero
        omega
      have hlow := ih x hlt
      rw [Nat.mod_eq_of_lt hlt]
      omega
    case isFalse hhigh =>
      have hlt : x / 2 ^ 2 ^ (lg + 2) < 2 ^ 2 ^ (lg + 2) := by
        rw [Nat.pow_add] at hx
        exact Nat.div_lt_of_lt_mul hx
      have hupper := ih _ hlt
      rw [size_div hhigh]
      omega

end Hw
