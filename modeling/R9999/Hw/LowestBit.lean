import Mathlib.Data.List.FinRange
import Mathlib.Data.Nat.Basic
import Mathlib.Tactic.IntervalCases
import Mathlib.Tactic.SplitIfs
import R9999.Hw.Sizes

/-!
# The lowest set bit

A tree of priority encoders, by halves down to four wires, and that it gives the lowest of the
wires that are set.
-/

namespace Hw

/-- The lowest set one of `2 ^ (lg + 2)` wires; a number that names none when none is set. -/
def findLowestSetBit : ℕ → (ℕ → Bool) → ℕ
  | 0, x => if x 0 then 0 else if x 1 then 1 else if x 2 then 2 else if x 3 then 3 else 7
  | lg + 1, x =>
    let half := 2 ^ (lg + 2)
    if ∀ k < half, x k = false then
      if ∀ k < half, x (half + k) = false then 2 * half
      else half + findLowestSetBit lg (fun k => x (half + k))
    else findLowestSetBit lg x

/-- `y` is the lowest set wire. -/
structure IsLowest (x : ℕ → Bool) (y : ℕ) : Prop where
  set : x y = true
  below : ∀ k < y, x k = false

/-- **The tree finds the lowest set wire.** -/
theorem findLowestSetBit_spec (lg : ℕ) (x : ℕ → Bool) (h : ∃ k < 2 ^ (lg + 2), x k = true) :
    findLowestSetBit lg x < 2 ^ (lg + 2) ∧ IsLowest x (findLowestSetBit lg x) := by
  induction lg generalizing x with
  | zero =>
    obtain ⟨k, hk, hx⟩ := h
    unfold findLowestSetBit
    split_ifs with h0 h1 h2 h3
    · exact ⟨by decide, h0, fun j hj => absurd hj (Nat.not_lt_zero j)⟩
    · refine ⟨by decide, h1, fun j hj => ?_⟩
      interval_cases j
      exact eq_false_of_ne_true h0
    · refine ⟨by decide, h2, fun j hj => ?_⟩
      interval_cases j <;> apply eq_false_of_ne_true <;> assumption
    · refine ⟨by decide, h3, fun j hj => ?_⟩
      interval_cases j <;> apply eq_false_of_ne_true <;> assumption
    · interval_cases k <;> contradiction
  | succ lg ih =>
    have hpow : 2 ^ (lg + 1 + 2) = 2 ^ (lg + 2) + 2 ^ (lg + 2) := by
      rw [Nat.pow_succ 2 (lg + 2)]
      omega
    rw [hpow] at h ⊢
    unfold findLowestSetBit
    dsimp only
    split_ifs with hlo hhi
    · -- no wire is set
      obtain ⟨k, hk, hx⟩ := h
      rcases Nat.lt_or_ge k (2 ^ (lg + 2)) with hlt | hge
      · rw [hlo k hlt] at hx
        exact absurd hx Bool.false_ne_true
      · have hz := hhi (k - 2 ^ (lg + 2)) (by omega)
        rw [Nat.add_sub_cancel' hge, hx] at hz
        exact absurd hz.symm Bool.false_ne_true
    · push Not at hhi
      obtain ⟨k, hk, hx⟩ := hhi
      obtain ⟨hlt, hset, hbelow⟩ := ih (fun k => x (2 ^ (lg + 2) + k)) ⟨k, hk, by simpa using hx⟩
      refine ⟨by omega, hset, fun j hj => ?_⟩
      rcases Nat.lt_or_ge j (2 ^ (lg + 2)) with hjl | hjg
      · exact hlo j hjl
      · have := hbelow (j - 2 ^ (lg + 2)) (by omega)
        rwa [Nat.add_sub_cancel' hjg] at this
    · push Not at hlo
      obtain ⟨k, hk, hx⟩ := hlo
      obtain ⟨hlt, hlow⟩ := ih x ⟨k, hk, by simpa using hx⟩
      exact ⟨by omega, hlow⟩

/-- A vector of wires, with none beyond its width. -/
def wires {n : ℕ} (x : Fin n → Bool) (k : ℕ) : Bool := if h : k < n then x ⟨k, h⟩ else false

/-- The index that the tree gives, cut to the width of an index. -/
def lowest (lg : ℕ) (x : Fin (2 ^ (lg + 2)) → Bool) : Fin (2 ^ (lg + 2)) :=
  Fin.ofNat _ (findLowestSetBit lg (wires x))

/-- **The index is that of a set wire**, when there is one. -/
theorem lowest_set {lg : ℕ} {x : Fin (2 ^ (lg + 2)) → Bool} (h : ∃ i, x i = true) :
    x (lowest lg x) = true := by
  obtain ⟨i, hi⟩ := h
  obtain ⟨hlt, hset, -⟩ :=
    findLowestSetBit_spec lg (wires x) ⟨i, i.isLt, by rw [wires, dif_pos i.isLt]; exact hi⟩
  rw [wires, dif_pos hlt] at hset
  have hidx : lowest lg x = ⟨findLowestSetBit lg (wires x), hlt⟩ :=
    Fin.ext (Nat.mod_eq_of_lt hlt)
  rw [hidx]
  exact hset

theorem IsLowest.unique {x : ℕ → Bool} {y z : ℕ} (hy : IsLowest x y) (hz : IsLowest x z) : y = z := by
  rcases Nat.lt_trichotomy y z with h | h | h
  · exact absurd hy.set (by rw [hz.below y h]; exact Bool.false_ne_true)
  · exact h
  · exact absurd hz.set (by rw [hy.below z h]; exact Bool.false_ne_true)

/-- The first hit of a search through all wires is the lowest that is set. -/
theorem isLowest_of_find {n : ℕ} {x : Fin n → Bool} {j : Fin n}
    (h : (List.finRange n).find? x = some j) : IsLowest (wires x) j := by
  obtain ⟨hj, as, bs, hlist, has⟩ := List.find?_eq_some_iff_append.1 h
  have hsorted := hlist ▸ List.pairwise_lt_finRange n
  constructor
  · rw [wires, dif_pos j.isLt]
    exact hj
  · intro k hk
    rw [wires, dif_pos (hk.trans j.isLt)]
    -- what is not before the hit is not lower
    have hmem := hlist ▸ List.mem_finRange (⟨k, hk.trans j.isLt⟩ : Fin n)
    rcases List.mem_append.1 hmem with hmem | hmem
    · simpa using has _ hmem
    · rcases List.mem_cons.1 hmem with heq | hmem
      · rw [← heq] at hk
        exact absurd hk (Nat.lt_irrefl k)
      · have hlt : j < (⟨k, hk.trans j.isLt⟩ : Fin n) :=
          List.rel_of_pairwise_cons (List.pairwise_append.1 hsorted).2.1 hmem
        exact absurd (show j.val < k from hlt) (Nat.lt_asymm hk)

/-- When no wire is set the tree names none. -/
theorem findLowestSetBit_none (lg : ℕ) {x : ℕ → Bool} (h : ∀ k < 2 ^ (lg + 3), x k = false) :
    findLowestSetBit (lg + 1) x = 2 ^ (lg + 3) := by
  have hpow : 2 ^ (lg + 3) = 2 ^ (lg + 2) + 2 ^ (lg + 2) := by
    rw [Nat.pow_succ 2 (lg + 2)]
    omega
  rw [hpow] at h ⊢
  rw [findLowestSetBit, if_pos fun k hk => h k (by omega),
    if_pos fun k hk => h _ (by omega), Nat.two_mul]

/-- **The tree and the search agree.** -/
theorem findLowestSetBit_eq {n : ℕ} (lg : ℕ) (x : Fin n → Bool) (hn : n ≤ 2 ^ (lg + 3)) :
    findLowestSetBit (lg + 1) (wires x) =
      (((List.finRange n).find? x).map Fin.val).getD (2 ^ (lg + 3)) := by
  cases hfind : (List.finRange n).find? x with
  | none =>
    refine findLowestSetBit_none lg fun k _ => ?_
    unfold wires
    split
    · next hk => simpa using List.find?_eq_none.1 hfind ⟨k, hk⟩ (List.mem_finRange _)
    · rfl
  | some j =>
    have hlow := isLowest_of_find hfind
    have hspec := findLowestSetBit_spec (lg + 1) (wires x) ⟨j, j.isLt.trans_le hn, hlow.set⟩
    exact hspec.2.unique hlow

end Hw
