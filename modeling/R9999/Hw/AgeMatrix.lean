import Mathlib.Data.Fintype.Basic
import Mathlib.Order.WellFounded
import Mathlib.Data.List.Nodup
import R9999.Hw.Sizes

/-!
# Age matrices

A row of an age matrix says which other entries are older.  `AgeOrder` is that the rows of the
valid entries are the order of the seats they were given, and `oldestReady` chooses by the rows.
An entry that leaves has its column cleared (`AgeOrder.leave`), and the row of a new one is the
set of the entries that are there (`AgeOrder.enter`).
-/

namespace Hw

variable {ι : Type*}

/-- The rows of the valid entries are the order of their seats, and no two have one seat. -/
structure AgeOrder (valid : ι → Bool) (older : ι → ι → Bool) (seat : ι → ℕ) : Prop where
  row : ∀ i j, valid i = true → valid j = true → (older i j = true ↔ seat j < seat i)
  inj : ∀ i j, valid i = true → valid j = true → seat i = seat j → i = j
  /-- A row has no bit of an entry that is gone: it would be taken for one of a later uop. -/
  seen : ∀ i j, valid i = true → older i j = true → valid j = true

/-- The ready entries that no ready entry is older than. -/
def oldestReady [Fintype ι] (ready : ι → Bool) (older : ι → ι → Bool) (i : ι) : Bool :=
  ready i && !decide (∃ j, ready j = true ∧ older i j = true)

namespace AgeOrder

variable {valid : ι → Bool} {older : ι → ι → Bool} {seat : ι → ℕ}

/-- The chosen entries are those of least seat. -/
theorem oldestReady_iff [Fintype ι] (h : AgeOrder valid older seat) {ready : ι → Bool}
    (hr : ∀ i, ready i = true → valid i = true) (i : ι) :
    oldestReady ready older i = true ↔ ready i = true ∧ ∀ j, ready j = true → seat i ≤ seat j := by
  rw [oldestReady, Bool.and_eq_true, Bool.not_eq_true', decide_eq_false_iff_not]
  refine and_congr_right fun hi => ?_
  push Not
  refine forall_congr' fun j => imp_congr_right fun hj => ?_
  rw [Ne, h.row i j (hr i hi) (hr j hj), not_lt]

/-- **Exactly one entry is chosen**, whenever one is ready. -/
theorem existsUnique_oldestReady [Fintype ι] (h : AgeOrder valid older seat) {ready : ι → Bool}
    (hr : ∀ i, ready i = true → valid i = true) (hex : ∃ i, ready i = true) :
    ∃! i, oldestReady ready older i = true := by
  obtain ⟨i, hi, hmin⟩ : ∃ i, ready i = true ∧ ∀ j, ready j = true → seat i ≤ seat j := by
    obtain ⟨i, hi, hleast⟩ := WellFounded.has_min (InvImage.wf seat Nat.lt_wfRel.wf)
      {i | ready i = true} hex
    exact ⟨i, hi, fun j hj => not_lt.1 (hleast j hj)⟩
  refine ⟨i, (h.oldestReady_iff hr i).2 ⟨hi, hmin⟩, fun j hj => ?_⟩
  obtain ⟨hj, hjmin⟩ := (h.oldestReady_iff hr j).1 hj
  exact h.inj j i (hr j hj) (hr i hi) (le_antisymm (hjmin i hi) (hmin j hj))

/-- No entry is valid. -/
theorem empty (hv : ∀ i, valid i = false) : AgeOrder valid older seat where
  row i _ hi := by simp [hv i] at hi
  inj i _ hi := by simp [hv i] at hi
  seen i _ hi := by simp [hv i] at hi

/-- Entries leave, and every row has their columns cleared. -/
theorem leave (h : AgeOrder valid older seat) (gone : ι → Bool) :
    AgeOrder (fun i => valid i && !gone i) (fun i j => older i j && !gone j) seat where
  row i j hi hj := by
    simp only [Bool.and_eq_true] at hi hj ⊢
    rw [← h.row i j hi.1 hj.1]
    exact and_iff_left hj.2
  inj i j hi hj := by
    simp only [Bool.and_eq_true] at hi hj
    exact h.inj i j hi.1 hj.1
  seen i j hi hij := by
    simp only [Bool.and_eq_true] at hi hij ⊢
    exact ⟨h.seen i j hi.1 hij.1, hij.2⟩

/-- An entry, if any, comes with the youngest seat, and its row is the entries that are
there. -/
theorem enter (h : AgeOrder valid older seat) (new : ι → Bool) (s : ℕ)
    (hfree : ∀ i, new i = true → valid i = false)
    (hone : ∀ i j, new i = true → new j = true → i = j) (hs : ∀ i, valid i = true → seat i < s) :
    AgeOrder (fun i => valid i || new i) (fun i j => if new i then valid j else older i j)
      (fun i => if new i then s else seat i) := by
  have hnew (i : ι) (hi : valid i = true) : new i = false := by
    refine eq_false_of_ne_true fun hn => ?_
    rw [hfree i hn] at hi
    exact Bool.false_ne_true hi
  have hold (i : ι) (hi : (valid i || new i) = true) : new i = true ∨ valid i = true :=
    (Bool.or_eq_true _ _ ▸ hi).symm
  refine ⟨fun i j hi hj => ?_, fun i j hi hj hij => ?_, fun i j hi hij => ?_⟩
  · rcases hold i hi with hi' | hi' <;> rcases hold j hj with hj' | hj'
    · simp [hi', hj', hfree j hj']
    · simp [hi', hnew j hj', hj', hs j hj']
    · -- no old row has the bit of the entry that comes
      have hseen : older i j = false := eq_false_of_ne_true fun hij => by
        exact absurd ((h.seen i j hi' hij).symm.trans (hfree j hj')) (by decide)
      simp [hnew i hi', hj', hseen, (hs i hi').le]
    · simpa [hnew i hi', hnew j hj'] using h.row i j hi' hj'
  · rcases hold i hi with hi' | hi' <;> rcases hold j hj with hj' | hj'
    · exact hone i j hi' hj'
    · simp only [hi', hnew j hj', if_true, Bool.false_eq_true, if_false] at hij
      exact absurd hij (hs j hj').ne'
    · simp only [hj', hnew i hi', if_true, Bool.false_eq_true, if_false] at hij
      exact absurd hij (hs i hi').ne
    · simp only [hnew i hi', hnew j hj', Bool.false_eq_true, if_false] at hij
      exact h.inj i j hi' hj' hij
  · have hj' : valid j = true := by
      rcases hold i hi with hi' | hi'
      · simpa [hi'] using hij
      · simp only [hnew i hi', Bool.false_eq_true, if_false] at hij
        exact h.seen i j hi' hij
    simp [hj']

/-- A set of valid entries can be listed oldest first, as the rows say. -/
theorem exists_list [Fintype ι] (h : AgeOrder valid older seat) {m : ι → Bool}
    (hm : ∀ i, m i = true → valid i = true) :
    ∃ l : List ι, (∀ i, i ∈ l ↔ m i = true) ∧
      l.Pairwise fun a b => older b a = true ∧ older a b = false := by
  classical
  let le (a b : ι) : Bool := decide (seat a ≤ seat b)
  let l := ((Finset.univ : Finset ι).toList.filter m).mergeSort le
  have hmem (i : ι) : i ∈ l ↔ m i = true := by
    simp only [l, List.mem_mergeSort, List.mem_filter, Finset.mem_toList, Finset.mem_univ, true_and]
  have hsort : l.Pairwise fun a b => seat a ≤ seat b := by
    refine (List.pairwise_mergeSort (fun a b c hab hbc => ?_) (fun a b => ?_) _).imp
      fun hab => of_decide_eq_true hab
    · simp only [decide_eq_true_eq] at hab hbc ⊢
      exact hab.trans hbc
    · simpa [le] using Nat.le_total (seat a) (seat b)
  have hne : l.Pairwise (· ≠ ·) :=
    (List.mergeSort_perm _ le).nodup_iff.2 ((Finset.nodup_toList _).filter _)
  refine ⟨l, hmem, (hsort.and hne).imp_of_mem fun {a b} ha hb hab => ?_⟩
  have hva := hm a ((hmem a).1 ha)
  have hvb := hm b ((hmem b).1 hb)
  have hlt : seat a < seat b := lt_of_le_of_ne hab.1 fun he => hab.2 (h.inj a b hva hvb he)
  refine ⟨(h.row b a hvb hva).2 hlt, eq_false_of_ne_true fun hba => ?_⟩
  exact lt_asymm hlt ((h.row a b hva hvb).1 hba)

end AgeOrder

/-- The first `n` places are each that of one valid entry or done, and done once. -/
structure Seated (valid : ι → Bool) (seat : ι → ℕ) (done : List ℕ) (n : ℕ) : Prop where
  placed : ∀ p, p < n ↔ (∃ i, valid i = true ∧ seat i = p) ∨ p ∈ done
  inj : ∀ i j, valid i = true → valid j = true → seat i = seat j → i = j
  fresh : ∀ i, valid i = true → seat i ∉ done
  nodup : done.Nodup

namespace Seated

variable {valid : ι → Bool} {seat : ι → ℕ} {done : List ℕ} {n : ℕ}

theorem empty (hv : ∀ i, valid i = false) : Seated valid seat [] 0 where
  placed p := by simp [hv]
  inj i _ hi := by simp [hv i] at hi
  fresh i hi := by simp
  nodup := List.nodup_nil

theorem lt (h : Seated valid seat done n) {i : ι} (hi : valid i = true) : seat i < n :=
  (h.placed _).2 (.inl ⟨i, hi, rfl⟩)

/-- An entry, if any, comes with the next place. -/
theorem enter (h : Seated valid seat done n) {new : ι → Bool} {k : ι} (hk : valid k = false)
    (hnew : ∀ i, new i = true ↔ i = k) :
    Seated (fun i => valid i || new i) (fun i => if new i then n else seat i) done (n + 1) := by
  have hold (i : ι) (hi : valid i = true) : new i = false := by
    refine eq_false_of_ne_true fun hn => ?_
    rw [(hnew i).1 hn, hk] at hi
    exact Bool.false_ne_true hi
  refine ⟨fun p => ?_, fun i j hi hj hij => ?_, fun i hi => ?_, h.nodup⟩
  · rw [Nat.lt_succ_iff_lt_or_eq, h.placed]
    constructor
    · rintro ((⟨i, hi, rfl⟩ | hp) | rfl)
      · exact .inl ⟨i, by simp [hi], by simp [hold i hi]⟩
      · exact .inr hp
      · exact .inl ⟨k, by simp [(hnew k).2 rfl], by simp [(hnew k).2 rfl]⟩
    · rintro (⟨i, hi, rfl⟩ | hp)
      · rcases hn : new i with _ | _
        · exact .inl (.inl ⟨i, by simpa [hn] using hi, by simp⟩)
        · exact .inr (by simp)
      · exact .inl (.inr hp)
  · simp only [Bool.or_eq_true] at hi hj
    rcases hi' : new i with _ | _ <;> rcases hj' : new j with _ | _ <;>
      simp only [hi', hj', Bool.false_eq_true, or_false, if_true, if_false] at hi hj hij
    · exact h.inj i j hi hj hij
    · exact absurd hij (h.lt hi).ne
    · exact absurd hij (h.lt hj).ne'
    · rw [(hnew i).1 hi', (hnew j).1 hj']
  · rcases hi' : new i with _ | _
    · simp only [hi', Bool.or_false] at hi
      simpa using h.fresh i hi
    · simp only [if_true]
      exact fun hn => lt_irrefl n ((h.placed n).2 (.inr hn))

/-- The next place is done without an entry. -/
theorem skip (h : Seated valid seat done n) : Seated valid seat (done ++ [n]) (n + 1) where
  placed p := by
    rw [Nat.lt_succ_iff_lt_or_eq, h.placed, List.mem_append, List.mem_singleton, or_assoc]
  inj := h.inj
  fresh i hi := by
    rw [List.mem_append, List.mem_singleton, not_or]
    exact ⟨h.fresh i hi, (h.lt hi).ne⟩
  nodup := by
    refine List.nodup_append'.2 ⟨h.nodup, List.nodup_singleton n, ?_⟩
    rw [List.disjoint_singleton]
    exact fun hn => lt_irrefl n ((h.placed n).2 (.inr hn))

/-- An entry leaves, and its place is done. -/
theorem leave (h : Seated valid seat done n) {gone : ι → Bool} {k : ι} (hk : valid k = true)
    (hgone : ∀ i, gone i = true ↔ i = k) :
    Seated (fun i => valid i && !gone i) seat (done ++ [seat k]) n := by
  have hne (i : ι) : gone i = false ↔ i ≠ k := by rw [Ne, ← hgone i, Bool.not_eq_true]
  refine ⟨fun p => ?_, fun i j hi hj => ?_, fun i hi => ?_, ?_⟩
  · rw [h.placed, List.mem_append, List.mem_singleton]
    constructor
    · rintro (⟨i, hi, rfl⟩ | hp)
      · by_cases hik : i = k
        · exact .inr (.inr (by rw [hik]))
        · exact .inl ⟨i, by simp [hi, (hne i).2 hik], rfl⟩
      · exact .inr (.inl hp)
    · rintro (⟨i, hi, rfl⟩ | hp | rfl)
      · exact .inl ⟨i, (Bool.and_eq_true _ _ ▸ hi).1, rfl⟩
      · exact .inr hp
      · exact .inl ⟨k, hk, rfl⟩
  · exact h.inj i j (Bool.and_eq_true _ _ ▸ hi).1 (Bool.and_eq_true _ _ ▸ hj).1
  · simp only [Bool.and_eq_true, Bool.not_eq_true', hne] at hi
    rw [List.mem_append, List.mem_singleton, not_or]
    exact ⟨h.fresh i hi.1, fun he => hi.2 (h.inj i k hi.1 hk he)⟩
  · refine List.nodup_append'.2 ⟨h.nodup, List.nodup_singleton _, ?_⟩
    rw [List.disjoint_singleton]
    exact h.fresh k hk

end Seated

end Hw
