import Mathlib.Data.Nat.Notation
import Mathlib.Tactic.Common
import R9999.Hw.Sizes

/-!
# Reserving the slots of a port

A vector of slots that shifts down by one in every cycle: bit `k` is the slot of the cycle `k`
from now.  A request for the slot `d` cycles from now sets, in the vector of the next cycle, the
bit that is one lower.

What is set is what has been asked for (`reserved_iff`), so that a request that finds its slot
free is for no cycle of an earlier one.
-/

namespace Hw

/-- The vector of the next cycle. -/
def reserve {w : ℕ} (v : BitVec w) (d : Option ℕ) : BitVec w :=
  match d with
  | some d => v >>> 1 ||| 1#w <<< (d - 1)
  | none => v >>> 1

theorem getLsbD_reserve {w : ℕ} (v : BitVec w) (d : Option ℕ) {k : ℕ} :
    (reserve v d).getLsbD k =
      (v.getLsbD (k + 1) || decide (k < w ∧ ∃ e, d = some e ∧ k = e - 1)) := by
  cases d with
  | none => simp [reserve, Nat.add_comm 1 k]
  | some e =>
    have hone : (1#w <<< (e - 1)).getLsbD k = decide (k < w ∧ k = e - 1) := by
      rw [BitVec.getLsbD_shiftLeft, BitVec.getLsbD_one, Bool.eq_iff_iff]
      simp only [Bool.and_eq_true, decide_eq_true_eq, Bool.not_eq_true', decide_eq_false_iff_not]
      omega
    rw [reserve, BitVec.getLsbD_or, BitVec.getLsbD_ushiftRight, Nat.add_comm 1 k, hone]
    simp only [Option.some.injEq, exists_eq_left']

section Stream

variable {w : ℕ} {v : ℕ → BitVec w} {req : ℕ → Option ℕ}

/-- **What is reserved is what has been asked for.** -/
theorem reserved_iff (h0 : v 0 = 0#w) (hv : ∀ t, v (t + 1) = reserve (v t) (req t))
    (hreq : ∀ t d, req t = some d → 0 < d ∧ d ≤ w) (t k : ℕ) :
    (v t).getLsbD k = true ↔ ∃ s < t, ∃ d, req s = some d ∧ s + d = t + k := by
  induction t generalizing k with
  | zero => simp [h0]
  | succ t ih =>
    rw [hv, getLsbD_reserve, Bool.or_eq_true, ih, decide_eq_true_eq]
    constructor
    · rintro (⟨s, hs, d, hd, he⟩ | ⟨hk, d, hd, he⟩)
      · exact ⟨s, by omega, d, hd, by omega⟩
      · have hpos := (hreq t d hd).1
        exact ⟨t, Nat.lt_succ_self t, d, hd, by omega⟩
    · rintro ⟨s, hs, d, hd, he⟩
      rcases Nat.lt_succ_iff_lt_or_eq.1 hs with hlt | rfl
      · exact .inl ⟨s, hlt, d, hd, by omega⟩
      · have hle := (hreq s d hd).2
        exact .inr ⟨by omega, d, hd, by omega⟩

/-- What is reserved, of requests that are made on a condition. -/
theorem reserved_if_iff {p : ℕ → Bool} {d : ℕ → ℕ} (h0 : v 0 = 0#w)
    (hv : ∀ t, v (t + 1) = reserve (v t) (if p t then some (d t) else none))
    (hd : ∀ t, 0 < d t ∧ d t ≤ w) (t k : ℕ) :
    (v t).getLsbD k = true ↔ ∃ s < t, p s = true ∧ s + d s = t + k := by
  rw [reserved_iff h0 hv (fun t e he => by
    split at he
    · exact Option.some.inj he ▸ hd t
    · exact absurd he (by simp))]
  constructor
  · rintro ⟨s, hs, e, he, hse⟩
    split at he
    · next hp => exact ⟨s, hs, hp, by rw [Option.some.inj he, hse]⟩
    · exact absurd he (by simp)
  · rintro ⟨s, hs, hp, hse⟩
    exact ⟨s, hs, d s, by rw [if_pos hp], hse⟩

end Stream

end Hw
