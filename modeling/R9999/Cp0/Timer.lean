import Mathlib.Data.BitVec
import Mathlib.Tactic.SplitIfs
import R9999.Hw.Sizes

/-!
# The timer interrupt

Count, Compare and the timer bit of Cause (`exec.sv`).  Count runs at half the clock, or with
the retirements: in single-step mode, and always in the build with `INSN_PACED_COUNT`.  The
match looks at the Count that the cycle would leave without an MTC0, and at the old Compare.

`TimerLaw` is what the bit is for: it is up after a match until Compare is written, and at no
other time.  `timer_law_iff` says which cycles break it, over the whole run.
-/

namespace R9999

namespace Cp0

/-- The inputs of one cycle. -/
structure TimerIn where
  retire : Bool := false
  retireTwo : Bool := false
  singleStep : Bool := false
  /-- A retired MTC0: `w_cp0_wr` with its `w_cp0_wr_reg` and `w_cp0_wr_data`. -/
  cp0Wr : Option (BitVec 5 × BitVec 64) := none

/-- The registers, as reset leaves them. -/
structure Timer where
  toggle : Bool := false
  count : BitVec 32 := 0
  compare : BitVec 32 := 0
  timerIp : Bool := false
  deriving DecidableEq, Repr

/-- Count is paced by the retirements; `insnPaced` is the build's `INSN_PACED_COUNT`. -/
def TimerIn.paced (i : TimerIn) (insnPaced : Bool) : Bool := insnPaced || i.singleStep

/-- The word a retired MTC0 writes to a register. -/
def TimerIn.written (i : TimerIn) (reg : BitVec 5) : Option (BitVec 32) :=
  match i.cp0Wr with
  | some (r, data) => if r = reg then some (data.setWidth 32) else none
  | none => none

/-- The MTC0 to Count. -/
abbrev TimerIn.writesCount (i : TimerIn) : Option (BitVec 32) := i.written 9

/-- The MTC0 to Compare. -/
abbrev TimerIn.writesCompare (i : TimerIn) : Option (BitVec 32) := i.written 11

section Step

variable (insnPaced : Bool) (t : Timer) (i : TimerIn)

/-- `n_count`, before an MTC0. -/
def counted : BitVec 32 :=
  if i.paced insnPaced then
    if i.retireTwo then t.count + 2 else if i.retire then t.count + 1 else t.count
  else if t.toggle then t.count + 1 else t.count

/-- The match of `n_timer_ip`, with the value that a pair steps over. -/
def timerMatch : Bool :=
  counted insnPaced t i == t.compare ||
    (i.paced insnPaced && i.retireTwo && t.count + 1 == t.compare)

/-- A clock cycle. -/
def Timer.next : Timer :=
  { toggle := !t.toggle
    count := i.writesCount.getD (counted insnPaced t i)
    compare := i.writesCompare.getD t.compare
    timerIp := i.writesCompare.isNone && (t.timerIp || timerMatch insnPaced t i) }

/-- By how much Count goes on in the cycle, but for an MTC0. -/
def pace : BitVec 32 :=
  if i.paced insnPaced then if i.retireTwo then 2 else if i.retire then 1 else 0
  else if t.toggle then 1 else 0

theorem counted_eq : counted insnPaced t i = t.count + pace insnPaced t i := by
  unfold counted pace
  split_ifs <;> simp

/-- A step of two comes from a pair that retires. -/
theorem pace_eq_two (h : pace insnPaced t i = 2) : i.paced insnPaced = true ∧ i.retireTwo = true := by
  unfold pace at h
  split_ifs at h with hp hr
  all_goals first | exact ⟨hp, hr⟩ | exact absurd h (by decide)

theorem pace_of_two (h : (i.paced insnPaced && i.retireTwo) = true) : pace insnPaced t i = 2 := by
  rw [Bool.and_eq_true] at h
  rw [pace, if_pos h.1, if_pos h.2]

/-- Count goes on by two at most. -/
theorem pace_cases : pace insnPaced t i = 0 ∨ pace insnPaced t i = 1 ∨ pace insnPaced t i = 2 := by
  unfold pace
  split_ifs <;> simp

end Step

/-! ## Runs -/

/-- The registers at the start of cycle `n`, after reset. -/
def Timer.at (insnPaced : Bool) (ins : ℕ → TimerIn) : ℕ → Timer
  | 0 => {}
  | n + 1 => (Timer.at insnPaced ins n).next insnPaced (ins n)

section Law

variable (insnPaced : Bool) (ins : ℕ → TimerIn)

/-- In cycle `n` Count is Compare, or goes on by two, over Compare. -/
def MatchAt (n : ℕ) : Prop :=
  let t := Timer.at insnPaced ins n
  t.count = t.compare ∨
    (ins n).writesCount = none ∧ t.count + 1 = t.compare ∧
      (Timer.at insnPaced ins (n + 1)).count = t.count + 2

/-- There was a match before cycle `n`, and Compare has not been written since. -/
def Pending (n : ℕ) : Prop :=
  ∃ m < n, MatchAt insnPaced ins m ∧ ∀ k, m ≤ k → k < n → (ins k).writesCompare = none

/-- **The timer interrupt.**  The bit is up in the cycles after a match until Compare is
written; it is up at no other time, but for the cycle of the match itself. -/
def TimerLaw (n : ℕ) : Prop :=
  let t := Timer.at insnPaced ins n
  (Pending insnPaced ins n → t.timerIp = true) ∧
    (t.timerIp = true → Pending insnPaced ins n ∨ t.count = t.compare)

theorem pending_succ (n : ℕ) :
    Pending insnPaced ins (n + 1) ↔
      (ins n).writesCompare = none ∧ (Pending insnPaced ins n ∨ MatchAt insnPaced ins n) := by
  constructor
  · rintro ⟨m, hm, hmatch, hquiet⟩
    refine ⟨hquiet n (by omega) (by omega), ?_⟩
    rcases Nat.lt_succ_iff_lt_or_eq.1 hm with hlt | rfl
    · exact .inl ⟨m, hlt, hmatch, fun k hk hkn => hquiet k hk (by omega)⟩
    · exact .inr hmatch
  · rintro ⟨hn, ⟨m, hm, hmatch, hquiet⟩ | hmatch⟩
    · refine ⟨m, by omega, hmatch, fun k hk hkn => ?_⟩
      rcases Nat.lt_succ_iff_lt_or_eq.1 hkn with hlt | rfl
      · exact hquiet k hk hlt
      · exact hn
    · refine ⟨n, by omega, hmatch, fun k hk hkn => ?_⟩
      obtain rfl : k = n := by omega
      exact hn

end Law

/-! ## The cycles that break the law -/

section Cycles

variable (insnPaced : Bool) (t : Timer) (i : TimerIn)

/-- Count has been made equal to Compare by an MTC0 and goes on at once: the equality is seen
in no cycle. -/
def Overlooks : Prop :=
  t.count = t.compare ∧ t.timerIp = false ∧ i.writesCompare = none ∧ pace insnPaced t i ≠ 0

/-- An MTC0 to Count takes the place of an update that would have reached Compare or stepped
over it. -/
def Forestalls : Prop :=
  ∃ v, i.writesCount = some v ∧ v ≠ t.compare ∧ t.count ≠ t.compare ∧ t.timerIp = false ∧
    (t.count + pace insnPaced t i = t.compare ∨ pace insnPaced t i = 2 ∧ t.count + 1 = t.compare)

/-- A cycle that keeps the law. -/
def TimerOk : Prop := ¬ Overlooks insnPaced t i ∧ ¬ Forestalls insnPaced t i

/-- The match, by the step of Count. -/
theorem timerMatch_iff :
    timerMatch insnPaced t i = true ↔
      t.count + pace insnPaced t i = t.compare ∨
        pace insnPaced t i = 2 ∧ t.count + 1 = t.compare := by
  rw [timerMatch, Bool.or_eq_true, beq_iff_eq, counted_eq, Bool.and_eq_true, beq_iff_eq]
  refine or_congr_right (and_congr_left fun _ => ?_)
  exact ⟨pace_of_two insnPaced t i, fun h => by
    rw [(pace_eq_two insnPaced t i h).1, (pace_eq_two insnPaced t i h).2]
    rfl⟩

/-- A Count that leaves Compare does not match it again. -/
theorem no_match_of_leaving (h : t.count = t.compare) (hp : pace insnPaced t i ≠ 0) :
    timerMatch insnPaced t i = false := by
  rw [← Bool.not_eq_true, timerMatch_iff, ← h]
  rintro (h0 | ⟨-, h1⟩)
  · exact hp (by simpa using h0)
  · exact (by simp at h1)

/-- An MTC0 writes one register. -/
theorem writesCompare_of_count {v : BitVec 32} (h : i.writesCount = some v) :
    i.writesCompare = none := by
  cases hw : i.cp0Wr with
  | none => simp [TimerIn.writesCompare, TimerIn.written, hw]
  | some w =>
    obtain ⟨reg, data⟩ := w
    simp only [TimerIn.writesCount, TimerIn.written, hw] at h
    have hreg : reg = 9 := by
      by_contra hne
      rw [if_neg hne] at h
      exact absurd h (by simp)
    simp [TimerIn.writesCompare, TimerIn.written, hw, hreg]

end Cycles

section Run

variable (insnPaced : Bool) (ins : ℕ → TimerIn) (n : ℕ)

/-- The match of a cycle, by the law's own words. -/
theorem matchAt_of_match (hw : (ins n).writesCount = none)
    (h : pace insnPaced (Timer.at insnPaced ins n) (ins n) = 2)
    (hc : (Timer.at insnPaced ins n).count + 1 = (Timer.at insnPaced ins n).compare) :
    MatchAt insnPaced ins n := by
  refine .inr ⟨hw, hc, ?_⟩
  show (ins n).writesCount.getD (counted insnPaced (Timer.at insnPaced ins n) (ins n)) = _
  rw [hw, Option.getD_none, counted_eq, h]

/-- A match that is not overlooked brings the bit up. -/
theorem timerIp_of_match (hm : MatchAt insnPaced ins n) (hw : (ins n).writesCompare = none)
    (hok : ¬ Overlooks insnPaced (Timer.at insnPaced ins n) (ins n)) :
    (Timer.at insnPaced ins (n + 1)).timerIp = true := by
  generalize ht : Timer.at insnPaced ins n = t at hok
  have hnext : Timer.at insnPaced ins (n + 1) = t.next insnPaced (ins n) := by rw [← ht]; rfl
  rw [MatchAt, ht, hnext] at hm
  rw [hnext]
  show ((ins n).writesCompare.isNone && (t.timerIp || timerMatch insnPaced t (ins n))) = true
  rw [hw, Option.isNone_none, Bool.true_and, Bool.or_eq_true, timerMatch_iff]
  rcases hm with heq | ⟨hcw, hone, htwo⟩
  · cases hip : t.timerIp with
    | true => exact .inl rfl
    | false =>
      have hstay : pace insnPaced t (ins n) = 0 := by
        by_contra hp
        exact hok ⟨heq, hip, hw, hp⟩
      exact .inr (.inl (by rw [hstay, heq]; simp))
  · refine .inr (.inr ⟨?_, hone⟩)
    have hc : t.count + pace insnPaced t (ins n) = t.count + 2 := by
      rw [← counted_eq, ← htwo]
      show _ = (ins n).writesCount.getD _
      rw [hcw, Option.getD_none]
    exact (BitVec.add_right_inj t.count).1 hc

/-- One cycle keeps the law, unless it breaks it. -/
theorem timerLaw_next (h : TimerLaw insnPaced ins n)
    (hok : TimerOk insnPaced (Timer.at insnPaced ins n) (ins n)) :
    TimerLaw insnPaced ins (n + 1) := by
  constructor
  · intro hp
    obtain ⟨hw, hold | hm⟩ := (pending_succ insnPaced ins n).1 hp
    · have hip := h.1 hold
      show ((ins n).writesCompare.isNone && (_ || _)) = true
      rw [hw, hip]
      rfl
    · exact timerIp_of_match insnPaced ins n hm hw hok.1
  · intro hip
    rw [pending_succ]
    generalize ht : Timer.at insnPaced ins n = t at hok
    have hnext : Timer.at insnPaced ins (n + 1) = t.next insnPaced (ins n) := by rw [← ht]; rfl
    rw [hnext] at hip ⊢
    have hip' : ((ins n).writesCompare.isNone &&
        (t.timerIp || timerMatch insnPaced t (ins n))) = true := hip
    rw [Bool.and_eq_true, Option.isNone_iff_eq_none, Bool.or_eq_true, timerMatch_iff] at hip'
    obtain ⟨hw, hip'⟩ := hip'
    have hcompare : (t.next insnPaced (ins n)).compare = t.compare := by
      show (ins n).writesCompare.getD t.compare = t.compare
      rw [hw, Option.getD_none]
    rw [hcompare]
    by_cases heq : t.count = t.compare
    · exact .inl ⟨hw, .inr (.inl (by rw [ht]; exact heq))⟩
    cases hold : t.timerIp with
    | true =>
      rcases h.2 (by rw [ht]; exact hold) with hp | he
      · exact .inl ⟨hw, .inl hp⟩
      · exact absurd (by rwa [ht] at he) heq
    | false =>
      rw [hold] at hip'
      have hhit := hip'.resolve_left Bool.false_ne_true
      cases hcw : (ins n).writesCount with
      | some v =>
        have hv : v = t.compare := by
          by_contra hne
          exact hok.2 ⟨v, hcw, hne, heq, hold, hhit⟩
        refine .inr ?_
        show (ins n).writesCount.getD _ = t.compare
        rw [hcw, Option.getD_some, hv]
      | none =>
        rcases hhit with hreach | ⟨htwo, hone⟩
        · refine .inr ?_
          show (ins n).writesCount.getD (counted insnPaced t (ins n)) = t.compare
          rw [hcw, Option.getD_none, counted_eq, hreach]
        · exact .inl ⟨hw, .inr (matchAt_of_match insnPaced ins n hcw (by rw [ht]; exact htwo)
            (by rw [ht]; exact hone))⟩

/-- A cycle after which the law holds is not one that breaks it. -/
theorem timerOk_of_law (h : TimerLaw insnPaced ins n) (h' : TimerLaw insnPaced ins (n + 1)) :
    TimerOk insnPaced (Timer.at insnPaced ins n) (ins n) := by
  have hip : (Timer.at insnPaced ins (n + 1)).timerIp = ((ins n).writesCompare.isNone &&
      ((Timer.at insnPaced ins n).timerIp ||
        timerMatch insnPaced (Timer.at insnPaced ins n) (ins n))) := rfl
  refine ⟨?_, ?_⟩
  · rintro ⟨heq, hold, hw, hp⟩
    have hset := h'.1 ((pending_succ insnPaced ins n).2 ⟨hw, .inr (.inl heq)⟩)
    rw [hip, hold, no_match_of_leaving insnPaced _ _ heq hp, hw] at hset
    exact Bool.noConfusion hset
  · rintro ⟨v, hcw, hne, heq, hold, hhit⟩
    have hw := writesCompare_of_count (ins n) hcw
    have hset : (Timer.at insnPaced ins (n + 1)).timerIp = true := by
      rw [hip, (timerMatch_iff insnPaced _ _).2 hhit, hw, Bool.or_true]
      rfl
    have hcount : (Timer.at insnPaced ins (n + 1)).count = v := by
      show (ins n).writesCount.getD _ = v
      rw [hcw, Option.getD_some]
    have hcompare : (Timer.at insnPaced ins (n + 1)).compare =
        (Timer.at insnPaced ins n).compare := by
      show (ins n).writesCompare.getD _ = _
      rw [hw, Option.getD_none]
    rcases h'.2 hset with hp | he
    · obtain ⟨-, hp | hm⟩ := (pending_succ insnPaced ins n).1 hp
      · rw [h.1 hp] at hold
        exact Bool.noConfusion hold
      · rcases hm with he | ⟨hn, -⟩
        · exact heq he
        · rw [hcw] at hn
          exact absurd hn (by simp)
    · rw [hcount, hcompare] at he
      exact hne he

/-- **The timer law holds exactly until a cycle breaks it.**  In a run of any length, from
reset, the bit follows the matches in every cycle if and only if no MTC0 makes Count and
Compare equal just before Count goes on, and no MTC0 to Count forestalls a match. -/
theorem timer_law_iff :
    (∀ m ≤ n, TimerLaw insnPaced ins m) ↔
      ∀ m < n, TimerOk insnPaced (Timer.at insnPaced ins m) (ins m) := by
  constructor
  · intro h m hm
    exact timerOk_of_law insnPaced ins m (h m hm.le) (h (m + 1) hm)
  · intro h m hm
    induction m with
    | zero =>
      refine ⟨?_, fun hip => absurd hip Bool.false_ne_true⟩
      rintro ⟨k, hk, -⟩
      exact absurd hk (Nat.not_lt_zero k)
    | succ m ih => exact timerLaw_next insnPaced ins m (ih (by omega)) (h m hm)

end Run

/-- Compare is set to 5, and Count is set to 5 in an even cycle: Count is at 5 in an odd cycle
only, and goes on. -/
def overlooked : ℕ → TimerIn
  | 1 => { cp0Wr := some (11, 5) }
  | 2 => { cp0Wr := some (9, 5) }
  | _ => {}

/-- The match of cycle 3 is lost. -/
theorem timer_match_lost : ¬ TimerLaw false overlooked 4 := by
  intro h
  have hp : Pending false overlooked 4 := by
    refine ⟨3, by decide, .inl (by decide), fun k hk hk' => ?_⟩
    obtain rfl : k = 3 := by omega
    rfl
  exact absurd (h.1 hp) (by decide)

end Cp0

end R9999
