import Mathlib.Tactic.Ring
import R9999.Hw.Sizes

/-!
# Restoring recurrences

Division and square root one bit a step: the partial remainder, with the next bits of the
source already in it, is compared with a trial subtrahend, which is taken away where it fits.

`Dividing` and `Rooting` are what the quotient or root so far and the partial remainder are
before step `k`; the `step` theorems go from one step to the next, and the `last` theorems say
what the last step leaves when its remainder is not shifted.
-/

namespace Hw

/-- The remainder a step leaves: the subtrahend is taken away where it fits. -/
def restore (rem sub : ℕ) : ℕ := if sub ≤ rem then rem - sub else rem

/-- Before step `k` of a division of `A * 2 ^ k` by `B`. -/
structure Dividing (A B k q rem : ℕ) : Prop where
  eq : 2 * q * B + rem = A * 2 ^ k
  lt : rem < 2 * B
  small : q < 2 ^ k

namespace Dividing

variable {A B k q rem : ℕ}

theorem start (h : A < 2 * B) : Dividing A B 0 0 A :=
  ⟨by ring, h, by decide⟩

/-- The last step leaves quotient and remainder. -/
theorem last (h : Dividing A B k q rem) :
    (2 * q + (decide (B ≤ rem)).toNat) * B + restore rem B = A * 2 ^ k ∧ restore rem B < B := by
  obtain ⟨he, hlt, -⟩ := h
  rw [restore]
  by_cases hb : B ≤ rem
  · rw [if_pos hb, decide_eq_true hb, Bool.toNat_true, Nat.add_mul, Nat.one_mul]
    omega
  · rw [if_neg hb, decide_eq_false hb, Bool.toNat_false, Nat.add_zero]
    omega

/-- One more bit of the quotient is a bit. -/
theorem lt_pow (h : Dividing A B k q rem) :
    2 * q + (decide (B ≤ rem)).toNat < 2 ^ (k + 1) := by
  have hb := Bool.toNat_le (decide (B ≤ rem))
  have hs := h.small
  rw [pow_succ]
  omega

/-- A step. -/
theorem step (h : Dividing A B k q rem) :
    Dividing A B (k + 1) (2 * q + (decide (B ≤ rem)).toNat) (2 * restore rem B) := by
  obtain ⟨he, hlt⟩ := h.last
  refine ⟨?_, by omega, h.lt_pow⟩
  calc 2 * (2 * q + (decide (B ≤ rem)).toNat) * B + 2 * restore rem B
      = 2 * ((2 * q + (decide (B ≤ rem)).toNat) * B + restore rem B) := by ring
    _ = A * 2 ^ (k + 1) := by rw [he]; ring

end Dividing

/-- Before step `k` of a square root: `P` is the part of the radicand seen so far, the root
of what was seen a step earlier has `k` bits. -/
structure Rooting (P k q rem : ℕ) : Prop where
  eq : 4 * (q * q) + rem = P
  le : rem ≤ 8 * q + 3
  small : q < 2 ^ k

namespace Rooting

variable {P k q rem : ℕ}

theorem start (h : P < 4) : Rooting P 0 0 P := ⟨by ring, by omega, by decide⟩

/-- The last step leaves the root and what is over its square. -/
theorem last (h : Rooting P k q rem) :
    (2 * q + (decide (4 * q + 1 ≤ rem)).toNat) * (2 * q + (decide (4 * q + 1 ≤ rem)).toNat) +
        restore rem (4 * q + 1) = P ∧
      restore rem (4 * q + 1) ≤ 2 * (2 * q + (decide (4 * q + 1 ≤ rem)).toNat) := by
  obtain ⟨he, hle, -⟩ := h
  rw [restore]
  by_cases hb : 4 * q + 1 ≤ rem
  · rw [if_pos hb, decide_eq_true hb, Bool.toNat_true]
    have hsq : (2 * q + 1) * (2 * q + 1) = 4 * (q * q) + (4 * q + 1) := by ring
    rw [hsq]
    omega
  · rw [if_neg hb, decide_eq_false hb, Bool.toNat_false, Nat.add_zero]
    have hsq : 2 * q * (2 * q) = 4 * (q * q) := by ring
    rw [hsq]
    omega

theorem lt_pow (h : Rooting P k q rem) :
    2 * q + (decide (4 * q + 1 ≤ rem)).toNat < 2 ^ (k + 1) := by
  have hb := Bool.toNat_le (decide (4 * q + 1 ≤ rem))
  have hs := h.small
  rw [pow_succ]
  omega

/-- A step, with the next two bits of the radicand. -/
theorem step (h : Rooting P k q rem) {pair : ℕ} (hp : pair < 4) :
    Rooting (4 * P + pair) (k + 1) (2 * q + (decide (4 * q + 1 ≤ rem)).toNat)
      (4 * restore rem (4 * q + 1) + pair) := by
  obtain ⟨he, hle⟩ := h.last
  exact ⟨by omega, by omega, h.lt_pow⟩

end Rooting

end Hw
