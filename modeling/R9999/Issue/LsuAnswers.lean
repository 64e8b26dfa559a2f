import R9999.Issue.LsuLaw

/-!
# The LSU and the answers of the L1D

The L1D compares a load with the stores it was sent with, by then other uops may be in their
slots.  What it sees of a slot is one bit that toggles with every allocation, and this is enough
while no slot is given away twice between the issue and the comparison: the stores that the L1D
finds are then the live stores before the load, all of them and no others.  A load that is told to
wait for some of them waits for those and no others.
-/

namespace R9999

namespace Issue

variable {c : LsuCfg} {R : Type*}

/-- What the entries keep of what they were sent with. -/
structure Sent (s : Lsu c R) (t : LsuTrace c) : Prop where
  /-- The epoch of a slot tells whether it was allocated an odd number of times. -/
  epoch : ∀ k j, s.ep j = (s.epSnap k j ^^ decide (t.turns k j % 2 = 1))
  stamp : ∀ k j, t.turns k j = 0 → t.stamp k j = t.seat j
  lt : ∀ k j, t.older k j = true → t.stamp k j < t.count
  past : ∀ k j, s.valid k = true → t.older k j = true → t.stamp k j < t.seat k
  /-- A store the entry was sent with is in its slot, or gone. -/
  home : ∀ k j j', t.older k j = true → s.valid j' = true → t.seat j' = t.stamp k j →
    j' = j ∧ t.turns k j = 0
  issued_valid : ∀ k, s.issued k = true → s.valid k = true
  /-- No store before an entry in flight has come since. -/
  seen : ∀ k j, s.issued k = true → s.stLive j = true → t.seat j < t.seat k →
    t.older k j = true ∧ t.turns k j = 0

namespace Sent

variable {s : Lsu c R} {t : LsuTrace c} {i : LsuIn c R}

theorem cleared (f : Lsu c R) : Sent f.cleared LsuTrace.start where
  epoch _ _ := rfl
  stamp _ _ _ := rfl
  lt _ _ h := absurd h Bool.false_ne_true
  past _ _ h := absurd h Bool.false_ne_true
  home _ _ _ h := absurd h Bool.false_ne_true
  issued_valid _ h := absurd h Bool.false_ne_true
  seen _ _ h := absurd h Bool.false_ne_true

/-- The bit tells a store that was sent from one that came since. -/
theorem turns_eq_zero (h : Sent s t) {k j : Slot c} (hep : s.ep j = s.epSnap k j)
    (hle : t.turns k j ≤ 1) : t.turns k j = 0 := by
  have he := h.epoch k j
  rw [hep] at he
  have hodd : t.turns k j % 2 ≠ 1 := by
    intro ho
    rw [ho] at he
    cases hs : s.epSnap k j <;> simp [hs] at he
  omega

theorem ep_of_turns (h : Sent s t) {k j : Slot c} (h0 : t.turns k j = 0) :
    s.ep j = s.epSnap k j := by
  rw [h.epoch k j, h0]
  simp

/-- **The comparison of the L1D finds the live stores before an entry in flight**, all of them and
no others. -/
theorem sbOlder_iff (h : Sent s t) {k j : Slot c} (hk : s.issued k = true)
    (hle : t.turns k j ≤ 1) :
    L1d.sbOlder s.sbView ⟨t.older k, s.epSnap k⟩ j = true ↔
      s.stLive j = true ∧ t.seat j < t.seat k := by
  simp only [L1d.sbOlder, Lsu.sbView, Bool.and_eq_true, beq_iff_eq]
  constructor
  · rintro ⟨⟨ho, hl⟩, hep⟩
    refine ⟨hl, ?_⟩
    rw [← h.stamp k j (h.turns_eq_zero hep hle)]
    exact h.past k j (h.issued_valid k hk) ho
  · rintro ⟨hl, hlt⟩
    obtain ⟨ho, h0⟩ := h.seen k j hk hl hlt
    exact ⟨⟨ho, hl⟩, h.ep_of_turns h0⟩

theorem valid_of_issues (e : Entered s t) {k : Slot c} (h : s.issues i k = true) :
    s.valid k = true := by
  simp only [Lsu.issues, Bool.and_eq_true, beq_iff_eq] at h
  rw [h.2]
  exact Lsu.valid_of_elig (((LsuOrder.picks_of e i).2 h.1).1)

variable [DecidableEq R]

/-- An entry that issues is sent with the live stores before it. -/
theorem older_of_issues (e : Entered s t) {k j : Slot c} (hk : s.issues i k = true) :
    (t.next s i).older k j = true ↔ s.stLive j = true ∧ t.seat j < t.seat k := by
  have hv := valid_of_issues e hk
  simp only [LsuTrace.next, hk, if_true, Bool.and_eq_true]
  rw [and_comm]
  refine and_congr_right fun hl => ?_
  exact e.ages.row k j hv (Lsu.stLive_iff.1 hl).1

theorem stamp_of_issues {k j : Slot c} (hk : s.issues i k = true) :
    (t.next s i).stamp k j = t.seat j ∧ (t.next s i).turns k j = (s.allocEntry i j).toNat := by
  simp [LsuTrace.next, hk]

theorem of_not_issues {k : Slot c} (hk : s.issues i k = false) (j : Slot c) :
    (t.next s i).older k j = t.older k j ∧ (t.next s i).stamp k j = t.stamp k j ∧
      (t.next s i).turns k j = t.turns k j + (s.allocEntry i j).toNat := by
  simp [LsuTrace.next, hk]

/-- What an entry was sent with is before it and counted. -/
theorem stamp_lt (e : Entered s t) (h : Sent s t) {k j : Slot c}
    (ho : (t.next s i).older k j = true) : (t.next s i).stamp k j < t.count ∧
      (s.valid k = true → (t.next s i).stamp k j < t.seat k) := by
  rcases hk : s.issues i k with _ | _
  · obtain ⟨ho', hs, -⟩ := of_not_issues (t := t) hk j
    rw [ho'] at ho
    rw [hs]
    exact ⟨h.lt k j ho, fun hv => h.past k j hv ho⟩
  · obtain ⟨hl, hlt⟩ := (older_of_issues e hk).1 ho
    rw [(stamp_of_issues hk).1]
    exact ⟨e.lt j (Lsu.stLive_iff.1 hl).1, fun _ => hlt⟩

theorem epoch_next (h : Sent s t) (hr : i.reset = false) (k j : Slot c) :
    (s.next i).ep j = ((s.next i).epSnap k j ^^ decide ((t.next s i).turns k j % 2 = 1)) := by
  have hep : (s.next i).ep j = (s.ep j ^^ s.allocEntry i j) := by
    simp only [Lsu.next, hr, Bool.false_eq_true, if_false]
    cases i.dsDone <;> cases ha : s.allocEntry i j <;> simp [Lsu.advance, Lsu.flashClear, ha]
  have hsnap : (s.next i).epSnap k = if s.issues i k then s.ep else s.epSnap k := by
    simp only [Lsu.next, hr, Bool.false_eq_true, if_false]
    cases i.dsDone <;> rfl
  rw [hep, hsnap]
  rcases hk : s.issues i k with _ | _
  · rw [(of_not_issues hk j).2.2, if_neg Bool.false_ne_true, h.epoch k j]
    rcases ha : s.allocEntry i j with _ | _
    · simp
    · rcases Nat.mod_two_eq_zero_or_one (t.turns k j) with hm | hm <;>
        simp [hm, Nat.add_mod]
  · rw [(stamp_of_issues hk).2, if_pos rfl]
    cases s.allocEntry i j <;> simp

theorem home_next (e : Entered s t) (h : Sent s t) (hr : i.reset = false) {k j j' : Slot c}
    (ho : (t.next s i).older k j = true) (hj' : (s.next i).valid j' = true)
    (he : (t.next s i).seat j' = (t.next s i).stamp k j) :
    j' = j ∧ (t.next s i).turns k j = 0 := by
  rcases Lsu.next_cases hr hj' with ⟨ha, -⟩ | ⟨hv, -, ha⟩
  · -- the new uop has a place after them all
    rw [Drains.seat_of_alloc ha] at he
    exact absurd (stamp_lt e h ho).1 he.not_gt
  · rw [Drains.seat_of_stay ha] at he
    rcases hk : s.issues i k with _ | _
    · obtain ⟨ho', hs, ht⟩ := of_not_issues (t := t) hk j
      rw [ho'] at ho
      rw [hs] at he
      obtain ⟨rfl, h0⟩ := h.home k j j' ho hv he
      exact ⟨rfl, by rw [ht, h0, ha]; rfl⟩
    · obtain ⟨hs, ht⟩ := stamp_of_issues (t := t) (j := j) hk
      rw [hs] at he
      have hvj := (Lsu.stLive_iff.1 ((older_of_issues e hk).1 ho).1).1
      obtain rfl := e.ages.inj j' j hv hvj he
      exact ⟨rfl, by rw [ht, ha]; rfl⟩

theorem issued_of_next (hr : i.reset = false) {k : Slot c} (hk : (s.next i).issued k = true) :
    (s.advance i).issued k = true ∧ (i.dsDone = true → (s.advance i).survive k = true) := by
  simp only [Lsu.next, hr, Bool.false_eq_true, if_false] at hk
  rcases hd : i.dsDone with _ | _ <;> simp only [hd, if_true, Bool.false_eq_true, if_false] at hk
  · exact ⟨hk, fun h => absurd h Bool.false_ne_true⟩
  · exact ⟨((Bool.and_eq_true _ _).mp hk).1, fun _ => ((Bool.and_eq_true _ _).mp hk).2⟩

/-- An entry in flight was so before or issues now. -/
theorem issued_cases {k : Slot c} (hk : (s.advance i).issued k = true) :
    s.freeEntry i k = false ∧ (s.issues i k = true ∨ s.issued k = true) := by
  simp only [Lsu.advance] at hk
  split_ifs at hk with hf hb hi
  · exact ⟨eq_false_of_ne_true hf, .inl hi⟩
  · exact ⟨eq_false_of_ne_true hf, .inr hk⟩

theorem issued_valid_next (e : Entered s t) (h : Sent s t) (hr : i.reset = false) {k : Slot c}
    (hk : (s.next i).issued k = true) : (s.next i).valid k = true := by
  obtain ⟨hadv, hs⟩ := issued_of_next hr hk
  obtain ⟨hf, hi⟩ := issued_cases hadv
  have hv : s.valid k = true := hi.elim (valid_of_issues e) (h.issued_valid k)
  rw [Lsu.next_valid hr, Lsu.advance_valid, hv, hf]
  refine ⟨rfl, e.usable k hv, fun hd => ?_⟩
  have := hs hd
  simp only [Lsu.survive, Bool.and_eq_true] at this
  exact ⟨this.1.2, this.2⟩

theorem seen_next (e : Entered s t) (h : Sent s t) (hr : i.reset = false) {k j : Slot c}
    (hk : (s.next i).issued k = true) (hj : (s.next i).stLive j = true)
    (hlt : (t.next s i).seat j < (t.next s i).seat k) :
    (t.next s i).older k j = true ∧ (t.next s i).turns k j = 0 := by
  obtain ⟨hf, hi⟩ := issued_cases (issued_of_next hr hk).1
  have hv : s.valid k = true := hi.elim (valid_of_issues e) (h.issued_valid k)
  rw [Drains.seat_of_stay (Lsu.not_alloc_of_valid hv)] at hlt
  rcases Lsu.next_live hr hj with ⟨ha, -⟩ | ⟨hl, -, ha⟩
  · rw [Drains.seat_of_alloc ha] at hlt
    exact absurd (e.lt k hv) (lt_asymm hlt)
  · rw [Drains.seat_of_stay ha] at hlt
    rcases hiss : s.issues i k with _ | _
    · obtain ⟨ho, -, ht⟩ := of_not_issues (t := t) hiss j
      have hik : s.issued k = true := hi.resolve_left (by rw [hiss]; exact Bool.false_ne_true)
      obtain ⟨ho', h0⟩ := h.seen k j hik hl hlt
      rw [ho, ht, ha, h0]
      exact ⟨ho', rfl⟩
    · exact ⟨(older_of_issues e hiss).2 ⟨hl, hlt⟩, by rw [(stamp_of_issues hiss).2, ha]; rfl⟩

/-- **What an entry was sent with is kept.** -/
theorem next (e : Entered s t) (h : Sent s t) (hr : i.reset = false) :
    Sent (s.next i) (t.next s i) where
  epoch := h.epoch_next hr
  stamp k j h0 := by
    rcases hk : s.issues i k with _ | _
    · obtain ⟨-, hs, ht⟩ := of_not_issues (t := t) hk j
      rw [ht] at h0
      rcases ha : s.allocEntry i j with _ | _
      · rw [hs, Drains.seat_of_stay ha]
        exact h.stamp k j (by omega)
      · rw [ha] at h0
        exact absurd h0 (Nat.succ_ne_zero _)
    · obtain ⟨hs, ht⟩ := stamp_of_issues (t := t) (j := j) hk
      rcases ha : s.allocEntry i j with _ | _
      · rw [hs, Drains.seat_of_stay ha]
      · rw [ht, ha] at h0
        exact absurd h0 (Nat.succ_ne_zero _)
  lt k j ho := lt_of_lt_of_le (stamp_lt e h ho).1 (Nat.le_add_right _ _)
  past k j hk ho := by
    rcases Lsu.next_cases hr hk with ⟨ha, -⟩ | ⟨hv, -, ha⟩
    · rw [Drains.seat_of_alloc ha]
      exact (stamp_lt e h ho).1
    · rw [Drains.seat_of_stay ha]
      exact (stamp_lt e h ho).2 hv
  home _ _ _ ho hj' he := h.home_next e hr ho hj' he
  issued_valid _ hk := h.issued_valid_next e hr hk
  seen _ _ hk hj hlt := h.seen_next e hr hk hj hlt

end Sent

/-! ## What the L1D may answer -/

/-- The answers of a cycle are about entries that were sent: data for one that is in flight or
blocked, the end of a store whose commit was sent, and a block of an entry in flight that names
stores it was sent with, in slots that were given away once at most since. -/
structure Answered (x : Lsu c R × LsuTrace c) (i : LsuIn c R) : Prop where
  rsp : i.rspValid = true → i.rspHold = true →
    x.1.issued i.rspIdx = true ∨ x.1.blk i.rspIdx ≠ .none
  done : ∀ k, i.stDone = some k → x.1.cmt k = true
  blk : i.blkValid = true → x.1.issued i.rspIdx = true ∧ ∀ j, i.blkSt j = true →
    x.2.older i.rspIdx j = true ∧ x.2.turns i.rspIdx j ≤ 1

/-! ### The stores to wait for -/

/-- A blocked entry waits for the stores that were named and are still there. -/
structure Waits (s : Lsu c R) (t : LsuTrace c) : Prop where
  past : ∀ k, ∀ p ∈ t.waits k, p < t.seat k ∧ p < t.count
  none : ∀ k, s.valid k = false → t.waits k = []
  blkSt : ∀ k j, s.blkSt k j = true ↔ s.stLive j = true ∧ t.seat j ∈ t.waits k

namespace Waits

variable {s : Lsu c R} {t : LsuTrace c} {i : LsuIn c R}

theorem cleared (f : Lsu c R) : Waits f.cleared LsuTrace.start where
  past _ _ hp := absurd hp List.not_mem_nil
  none _ _ := rfl
  blkSt _ _ := iff_of_false Bool.false_ne_true fun h => absurd h.2 List.not_mem_nil

variable [DecidableEq R]

/-- The entry that is told to wait, in a cycle that keeps it. -/
theorem waits_of_blk (hd : i.dsDone = false) (hf : s.freeEntry i i.rspIdx = false)
    (hb : i.blkValid = true) {p : ℕ} : p ∈ (t.next s i).waits i.rspIdx ↔
      ∃ j, (i.blkSt j = true ∧ t.older i.rspIdx j = true) ∧ t.stamp i.rspIdx j = p := by
  simp [LsuTrace.next, hd, hf, hb]

theorem waits_of_not_blk {k : Slot c} (hd : i.dsDone = false) (hf : s.freeEntry i k = false)
    (hb : (i.blkValid && k == i.rspIdx) = false) : (t.next s i).waits k = t.waits k := by
  simp only [LsuTrace.next, hd, hf, hb, Bool.or_self, Bool.false_eq_true, if_false]

theorem waits_of_gone {k : Slot c} (hg : (i.dsDone || s.freeEntry i k) = true) :
    (t.next s i).waits k = [] := by
  simp only [LsuTrace.next, hg, if_true]

/-- What an entry waits for is a store it was sent with, or one it waited for. -/
theorem mem_waits {k : Slot c} {p : ℕ} (hp : p ∈ (t.next s i).waits k) :
    p ∈ t.waits k ∨ (i.blkValid = true ∧ k = i.rspIdx ∧
      ∃ j, t.older k j = true ∧ t.stamp k j = p) := by
  simp only [LsuTrace.next] at hp
  split_ifs at hp with hg hb
  · exact absurd hp List.not_mem_nil
  · rw [Bool.and_eq_true, beq_iff_eq] at hb
    obtain ⟨j, hj, rfl⟩ := List.mem_map.1 hp
    exact .inr ⟨hb.1, hb.2, j, ((Bool.and_eq_true _ _).mp (List.mem_filter.1 hj).2).2, rfl⟩
  · exact .inl hp

theorem past_next (d : Sent s t) (h : Waits s t) (ho : Answered (s, t) i)
    {k : Slot c} {p : ℕ} (hp : p ∈ (t.next s i).waits k) :
    p < (t.next s i).seat k ∧ p < t.count := by
  have hold : p < t.seat k ∧ p < t.count := by
    rcases mem_waits hp with hp | ⟨hb, rfl, j, hj, rfl⟩
    · exact h.past k p hp
    · exact ⟨d.past _ j (d.issued_valid _ (ho.blk hb).1) hj, d.lt _ j hj⟩
  rcases ha : s.allocEntry i k with _ | _
  · rw [Drains.seat_of_stay ha]
    exact hold
  · rw [Drains.seat_of_alloc ha]
    exact ⟨hold.2, hold.2⟩

/-- A live store of a cycle without a flush stays unless it is freed. -/
theorem live_of_stay (e : Entered s t) (hr : i.reset = false) (hd : i.dsDone = false) {j : Slot c}
    (hj : s.stLive j = true) (hf : s.freeEntry i j = false) : (s.next i).stLive j = true := by
  obtain ⟨hv, hst⟩ := Lsu.stLive_iff.1 hj
  have hv' : (s.next i).valid j = true := by
    rw [Lsu.next_valid hr, Lsu.advance_valid, hv, hf, hd]
    exact ⟨rfl, e.usable j hv, fun h => absurd h Bool.false_ne_true⟩
  refine Lsu.stLive_iff.2 ⟨hv', ?_⟩
  rwa [(Lsu.next_flags hr hv').1, Lsu.advance_st hf (Lsu.not_alloc_of_valid hv)]

theorem next_blkSt (hr : i.reset = false) (k j : Slot c) : (s.next i).blkSt k j =
    (!i.dsDone && (s.advance i).blkSt k j) := by
  simp only [Lsu.next, hr, Bool.false_eq_true, if_false]
  cases i.dsDone <;> rfl

/-- A block keeps of the named stores those that are live and were not replaced. -/
theorem blkSt_of_blk (e : Entered s t) (d : Sent s t) (ho : Answered (s, t) i)
    (hr : i.reset = false) (hd : i.dsDone = false) (hf : s.freeEntry i i.rspIdx = false)
    (hb : i.blkValid = true) (j : Slot c) : (s.next i).blkSt i.rspIdx j = true ↔
      (s.next i).stLive j = true ∧ (t.next s i).seat j ∈ (t.next s i).waits i.rspIdx := by
  have hadv : (s.advance i).blkSt i.rspIdx j =
      (i.blkSt j && s.stLive j && !s.freeEntry i j && !(s.ep j ^^ s.epSnap i.rspIdx j)) := by
    simp [Lsu.advance, hf, hb]
  rw [next_blkSt hr, hd, Bool.not_false, Bool.true_and, hadv, waits_of_blk hd hf hb]
  simp only [Bool.and_eq_true, Bool.not_eq_true', bne_eq_false_iff_eq]
  constructor
  · rintro ⟨⟨⟨hbs, hl⟩, hfj⟩, hep⟩
    obtain ⟨hold, hle⟩ := (ho.blk hb).2 j hbs
    have hv := (Lsu.stLive_iff.1 hl).1
    refine ⟨live_of_stay e hr hd hl hfj, j, ⟨hbs, hold⟩, ?_⟩
    rw [Drains.seat_of_stay (Lsu.not_alloc_of_valid hv)]
    exact d.stamp _ j (d.turns_eq_zero hep hle)
  · rintro ⟨hl, j', ⟨hbs, hold⟩, hseat⟩
    rcases Lsu.next_live hr hl with ⟨ha, -⟩ | ⟨hl, hfj, ha⟩
    · rw [Drains.seat_of_alloc ha] at hseat
      exact absurd (d.lt _ j' hold) hseat.not_lt
    · rw [Drains.seat_of_stay ha] at hseat
      obtain ⟨rfl, h0⟩ := d.home _ j' j hold (Lsu.stLive_iff.1 hl).1 hseat.symm
      exact ⟨⟨⟨hbs, hl⟩, hfj⟩, d.ep_of_turns h0⟩

/-- **The stores to wait for are kept.** -/
theorem next (e : Entered s t) (d : Sent s t) (h : Waits s t) (ho : Answered (s, t) i)
    (hr : i.reset = false) : Waits (s.next i) (t.next s i) where
  past k p hp := (h.past_next d ho hp).imp_right fun hp => lt_of_lt_of_le hp (Nat.le_add_right _ _)
  none k hk := by
    by_cases hg : (i.dsDone || s.freeEntry i k) = true
    · exact waits_of_gone hg
    rw [Bool.or_eq_true, not_or, Bool.not_eq_true, Bool.not_eq_true] at hg
    have hv : s.valid k = false := by
      refine eq_false_of_ne_true fun hv => ?_
      have hv' : (s.next i).valid k = true := by
        rw [Lsu.next_valid hr, Lsu.advance_valid, hv, hg.2, hg.1]
        exact ⟨rfl, e.usable k hv, fun h => absurd h Bool.false_ne_true⟩
      exact Bool.false_ne_true (hk.symm.trans hv')
    have hb : (i.blkValid && k == i.rspIdx) = false := by
      refine eq_false_of_ne_true fun hb => ?_
      rw [Bool.and_eq_true, beq_iff_eq] at hb
      rw [hb.2, d.issued_valid _ (ho.blk hb.1).1] at hv
      exact Bool.false_ne_true hv.symm
    rw [waits_of_not_blk hg.1 hg.2 hb]
    exact h.none k hv
  blkSt k j := by
    by_cases hg : (i.dsDone || s.freeEntry i k) = true
    · rw [waits_of_gone hg, next_blkSt hr]
      have hfalse : (!i.dsDone && (s.advance i).blkSt k j) = false := by
        rw [Bool.or_eq_true] at hg
        rcases hg with hd | hf
        · simp [hd]
        · simp [Lsu.advance, hf]
      rw [hfalse]
      exact iff_of_false Bool.false_ne_true fun hm => absurd hm.2 List.not_mem_nil
    rw [Bool.or_eq_true, not_or, Bool.not_eq_true, Bool.not_eq_true] at hg
    obtain ⟨hd, hf⟩ := hg
    by_cases hb : (i.blkValid && k == i.rspIdx) = true
    · rw [Bool.and_eq_true, beq_iff_eq] at hb
      obtain ⟨hb, rfl⟩ := hb
      exact blkSt_of_blk e d ho hr hd hf hb j
    · have hb := eq_false_of_ne_true hb
      have hadv : (s.advance i).blkSt k j = (s.blkSt k j && !s.freeEntry i j) := by
        simp only [Lsu.advance, hf, hb, Bool.false_eq_true, if_false]
      rw [next_blkSt hr, hd, Bool.not_false, Bool.true_and, hadv, waits_of_not_blk hd hf hb,
        Bool.and_eq_true, Bool.not_eq_true', h.blkSt k j]
      constructor
      · rintro ⟨⟨hl, hp⟩, hfj⟩
        refine ⟨live_of_stay e hr hd hl hfj, ?_⟩
        rwa [Drains.seat_of_stay (Lsu.not_alloc_of_valid (Lsu.stLive_iff.1 hl).1)]
      · rintro ⟨hl, hp⟩
        rcases Lsu.next_live hr hl with ⟨ha, -⟩ | ⟨hl, hfj, ha⟩
        · -- a new store is not one of those
          rw [Drains.seat_of_alloc ha] at hp
          exact absurd (h.past k _ hp).2 (lt_irrefl _)
        · rw [Drains.seat_of_stay ha] at hp
          exact ⟨⟨hl, hp⟩, hfj⟩

end Waits

/-! ### The store data -/

/-- The data of an entry is captured once, and before it is needed. -/
structure Captures (s : Lsu c R) (t : LsuTrace c) : Prop where
  /-- The entry whose data is on its way is still there. -/
  go : s.sdGo = true → s.valid s.sdIdx = true ∧ s.sdSel s.sdIdx = true
  sel : ∀ k, s.sdOk k = true → s.sdSel k = true
  sel_valid : ∀ k, s.sdSel k = true → s.valid k = true
  ok_iff : ∀ k, s.valid k = true → (s.sdOk k = true ↔ t.seat k ∈ t.captured)
  lt : ∀ p ∈ t.captured, p < t.count
  /-- A merging load is sent with the register it merges into. -/
  mg : ∀ k, s.mg k = true → s.issued k = true ∨ s.blk k ≠ .none → s.sdOk k = true
  blk_valid : ∀ k, s.blk k ≠ .none → s.valid k = true
  commits : ∀ p ∈ t.commits, p ∈ t.captured
  done : ∀ p ∈ t.done, p ∈ t.commits

namespace Captures

variable {s : Lsu c R} {t : LsuTrace c} {i : LsuIn c R}

theorem cleared (f : Lsu c R) : Captures f.cleared LsuTrace.start where
  go h := absurd h Bool.false_ne_true
  sel _ h := absurd h Bool.false_ne_true
  sel_valid _ h := absurd h Bool.false_ne_true
  ok_iff _ h := absurd h Bool.false_ne_true
  lt _ hp := absurd hp List.not_mem_nil
  mg _ h := absurd h Bool.false_ne_true
  blk_valid _ h := absurd rfl h
  commits _ hp := absurd hp List.not_mem_nil
  done _ hp := absurd hp List.not_mem_nil

/-- An entry whose data is read is valid, was not read before, and is a store or a merging load. -/
theorem of_takesData (h : s.takesData i = true) : s.valid (s.sdPtr i) = true ∧
    s.sdSel (s.sdPtr i) = false ∧ i.dsDone = false ∧
      (s.st (s.sdPtr i) = true ∨ s.mg (s.sdPtr i) = true) := by
  have hrdy : s.sdRdy i (s.sdPtr i) = true := Hw.lowest_set (of_decide_eq_true h)
  simp only [Lsu.sdRdy, Lsu.stLive, Bool.and_eq_true, Bool.or_eq_true, Bool.not_eq_true'] at hrdy
  obtain ⟨⟨⟨hc, hsel⟩, hd⟩, -⟩ := hrdy
  rcases hc with ⟨hv, hst⟩ | ⟨hv, hmg⟩
  · exact ⟨hv, hsel, hd, .inl hst⟩
  · exact ⟨hv, hsel, hd, .inr hmg⟩

/-- An entry that has no data yet does not leave but by a flush. -/
theorem not_free_of_takesData [DecidableEq R] (e : Entered s t) (r : Drains s t)
    (h : Captures s t) (ho : Answered (s, t) i) (htd : s.takesData i = true) :
    s.freeEntry i (s.sdPtr i) = false := by
  obtain ⟨hv, hsel, -, hcls⟩ := of_takesData htd
  generalize s.sdPtr i = k at hv hsel hcls ⊢
  have hok : s.sdOk k = false := by
    refine eq_false_of_ne_true fun hok => ?_
    rw [h.sel k hok] at hsel
    exact absurd hsel (by decide)
  have hcl := e.classed k hv
  refine eq_false_of_ne_true fun hf => ?_
  rcases hcls with hst | hmg
  · have hdone := Lsu.stDone_of_free e (Lsu.stLive_iff.2 ⟨hv, hst⟩) hf
    exact Bool.false_ne_true (hok.symm.trans (r.cmt_ret k (ho.done k hdone)).2)
  · have hkind : s.ld k = true ∧ s.st k = false ∧ s.mv k = false := by
      rw [hcl.ld, hcl.st, hcl.mv]
      rw [hcl.mg] at hmg
      generalize (s.uops k).op = op at hmg ⊢
      cases op <;> first | exact ⟨rfl, rfl, rfl⟩ | exact absurd hmg (by decide)
    obtain ⟨hld, hst, hmv⟩ := hkind
    simp only [Lsu.freeEntry, Bool.and_eq_true, Bool.or_eq_true, beq_iff_eq,
      decide_eq_true_eq] at hf
    rcases hf.2 with (⟨⟨⟨-, hs⟩, -⟩, -⟩ | ⟨⟨⟨hrv, hrh⟩, -⟩, rfl⟩) | hdone
    · simp [Lsu.strict, hld, hmv] at hs
    · exact Bool.false_ne_true (hok.symm.trans (h.mg _ hmg (ho.rsp hrv hrh)))
    · exact Bool.false_ne_true (hok.symm.trans (r.cmt_ret k (ho.done k hdone)).2)

variable [DecidableEq R]

theorem advance_sdSel {k : Slot c} : (s.advance i).sdSel k = true ↔ s.freeEntry i k = false ∧
    ((s.takesData i = true ∧ k = s.sdPtr i) ∨ s.sdSel k = true) := by
  simp only [Lsu.advance]
  by_cases hk : k = s.sdPtr i <;> cases s.freeEntry i k <;> cases s.takesData i <;> simp [hk]

theorem advance_sdOk {k : Slot c} : (s.advance i).sdOk k = true ↔ s.freeEntry i k = false ∧
    ((s.sdGo = true ∧ k = s.sdIdx) ∨ s.sdOk k = true) := by
  simp only [Lsu.advance]
  by_cases hk : k = s.sdIdx <;> cases s.freeEntry i k <;> cases s.sdGo <;> simp [hk]

theorem mem_captured {p : ℕ} : p ∈ (t.next s i).captured ↔
    p ∈ t.captured ∨ (s.sdGo = true ∧ p = t.seat s.sdIdx) := by
  simp only [LsuTrace.next, List.mem_append]
  cases s.sdGo <;> simp

/-- The bits of the data after a flush are those of what it leaves. -/
theorem bits_of_next (hr : i.reset = false) {k : Slot c} :
    ((s.next i).sdSel k = true → (s.advance i).sdSel k = true ∧
      (i.dsDone = true → (s.advance i).survive k = true)) ∧
    ((s.next i).sdOk k = true → (s.advance i).sdOk k = true ∧
      (i.dsDone = true → (s.advance i).survive k = true)) := by
  simp only [Lsu.next, hr, Bool.false_eq_true, if_false]
  cases i.dsDone <;> simp [Lsu.flashClear]

/-- An entry with data that stays in a cycle stays in the LSU, but for a flush. -/
theorem valid_of_sdSel (e : Entered s t) (h : Captures s t) (hr : i.reset = false) {k : Slot c}
    (hk : (s.advance i).sdSel k = true)
    (hd : i.dsDone = true → (s.advance i).survive k = true) : (s.next i).valid k = true := by
  obtain ⟨hf, hsel⟩ := advance_sdSel.1 hk
  have hv : s.valid k = true := by
    rcases hsel with ⟨htd, rfl⟩ | hsel
    · exact (of_takesData htd).1
    · exact h.sel_valid k hsel
  rw [Lsu.next_valid hr, Lsu.advance_valid, hv, hf]
  refine ⟨rfl, e.usable k hv, fun hds => ?_⟩
  have := hd hds
  simp only [Lsu.survive, Bool.and_eq_true] at this
  exact ⟨this.1.2, this.2⟩

theorem ok_iff_next (e : Entered s t) (h : Captures s t) (hr : i.reset = false) {k : Slot c}
    (hk : (s.next i).valid k = true) :
    (s.next i).sdOk k = true ↔ (t.next s i).seat k ∈ (t.next s i).captured := by
  obtain ⟨-, -, -, hok, -⟩ := Lsu.next_flags hr hk
  rw [hok, advance_sdOk, mem_captured]
  rcases Lsu.next_cases hr hk with ⟨ha, hv, -⟩ | ⟨hv, hf, ha⟩
  · -- a new uop has no data
    rw [Drains.seat_of_alloc ha]
    refine iff_of_false ?_ ?_
    · rintro ⟨-, ⟨hgo, rfl⟩ | hok⟩
      · exact Bool.false_ne_true (hv.symm.trans (h.go hgo).1)
      · exact Bool.false_ne_true (hv.symm.trans (h.sel_valid k (h.sel k hok)))
    · rintro (hp | ⟨hgo, hp⟩)
      · exact lt_irrefl _ (h.lt _ hp)
      · exact (e.lt _ (h.go hgo).1).ne' hp
  · rw [Drains.seat_of_stay ha, h.ok_iff k hv]
    constructor
    · rintro ⟨-, ⟨hgo, rfl⟩ | hp⟩
      · exact .inr ⟨hgo, rfl⟩
      · exact .inl hp
    · rintro (hp | ⟨hgo, hp⟩)
      · exact ⟨hf, .inr hp⟩
      · exact ⟨hf, .inl ⟨hgo, e.ages.inj _ _ hv (h.go hgo).1 hp⟩⟩

/-- A blocked entry is there, and it was blocked or is in flight. -/
theorem blk_of_next (e : Entered s t) (d : Sent s t) (h : Captures s t)
    (ho : Answered (s, t) i) (hr : i.reset = false) {k : Slot c}
    (hk : (s.next i).blk k ≠ .none) :
    (s.next i).valid k = true ∧ (s.issued k = true ∨ s.blk k ≠ .none) := by
  have hd : i.dsDone = false := by
    refine eq_false_of_ne_true fun hd => hk ?_
    simp only [Lsu.next, hr, hd, Bool.false_eq_true, if_false, if_true]
    rfl
  have hadv : (s.advance i).blk k ≠ .none := by
    simpa only [Lsu.next, hr, hd, Bool.false_eq_true, if_false] using hk
  have hcase : s.freeEntry i k = false ∧ (s.issued k = true ∨ s.blk k ≠ .none) := by
    simp only [Lsu.advance] at hadv
    split_ifs at hadv with hf hw hb hrel
    · exact absurd rfl hadv
    · exact absurd rfl hadv
    · rw [Bool.and_eq_true, beq_iff_eq] at hb
      exact ⟨eq_false_of_ne_true hf, .inl (hb.2 ▸ (ho.blk hb.1).1)⟩
    · exact absurd rfl hadv
    · exact ⟨eq_false_of_ne_true hf, .inr hadv⟩
  obtain ⟨hf, hi⟩ := hcase
  have hv : s.valid k = true := hi.elim (d.issued_valid k) (h.blk_valid k)
  refine ⟨?_, hi⟩
  rw [Lsu.next_valid hr, Lsu.advance_valid, hv, hf, hd]
  exact ⟨rfl, e.usable k hv, fun h => absurd h Bool.false_ne_true⟩

theorem mg_next (e : Entered s t) (d : Sent s t) (h : Captures s t) (ho : Answered (s, t) i)
    (hr : i.reset = false) {k : Slot c} (hmg : (s.next i).mg k = true)
    (hk : (s.next i).issued k = true ∨ (s.next i).blk k ≠ .none) : (s.next i).sdOk k = true := by
  have hv' : (s.next i).valid k = true :=
    hk.elim (d.issued_valid_next e hr) fun hb => (blk_of_next e d h ho hr hb).1
  have hi : s.issues i k = true ∨ s.issued k = true ∨ s.blk k ≠ .none := by
    rcases hk with hk | hb
    · exact (Sent.issued_cases (Sent.issued_of_next hr hk).1).2.imp_right .inl
    · exact .inr (blk_of_next e d h ho hr hb).2
  have hv : s.valid k = true :=
    hi.elim (Sent.valid_of_issues e) fun h' => h'.elim (d.issued_valid k) (h.blk_valid k)
  obtain ⟨-, -, -, hok, -⟩ := Lsu.next_flags hr hv'
  have hstay : s.freeEntry i k = false ∧ s.allocEntry i k = false := by
    rcases Lsu.next_cases hr hv' with ⟨-, hv0, -⟩ | ⟨-, hf, ha⟩
    · exact absurd (hv.symm.trans hv0) (by decide)
    · exact ⟨hf, ha⟩
  obtain ⟨hf, ha⟩ := hstay
  have hmg' : s.mg k = true := by
    simp only [Lsu.next, hr, Bool.false_eq_true, if_false] at hmg
    rcases hd : i.dsDone with _ | _ <;>
      simp only [hd, if_true, Bool.false_eq_true, if_false] at hmg
    · rwa [Lsu.advance_mg hf ha] at hmg
    · exact absurd hmg Bool.false_ne_true
  rw [hok, advance_sdOk]
  refine ⟨hf, .inr ?_⟩
  rcases hi with hi | hi
  · -- it issues once its operand is there
    simp only [Lsu.issues, Bool.and_eq_true, beq_iff_eq] at hi
    obtain ⟨hi, rfl⟩ := hi
    have hel := ((LsuOrder.picks_of e i).2 hi).1
    simp only [Lsu.elig, Lsu.entryRdy, hmg', Bool.and_eq_true, Bool.not_true, Bool.false_or] at hel
    exact hel.1.1.1.1.2
  · exact h.mg k hmg' hi

/-- **The data is captured before it is needed.** -/
theorem next (e : Entered s t) (r : Drains s t) (d : Sent s t) (h : Captures s t)
    (ho : Answered (s, t) i) (hr : i.reset = false) : Captures (s.next i) (t.next s i) where
  go hgo := by
    have hregs : (s.next i).sdGo = s.takesData i ∧ (s.next i).sdIdx = s.sdPtr i := by
      simp only [Lsu.next, hr, Bool.false_eq_true, if_false]
      cases i.dsDone <;> exact ⟨rfl, rfl⟩
    rw [hregs.1] at hgo
    rw [hregs.2]
    have hd := (of_takesData hgo).2.2.1
    have hsel : (s.advance i).sdSel (s.sdPtr i) = true :=
      advance_sdSel.2 ⟨not_free_of_takesData e r h ho hgo, .inl ⟨hgo, rfl⟩⟩
    have hv := valid_of_sdSel e h hr hsel fun hds => absurd (hds.symm.trans hd) (by decide)
    exact ⟨hv, (Lsu.next_flags hr hv).2.2.1.trans hsel⟩
  sel k hk := by
    obtain ⟨hok, hd⟩ := (bits_of_next hr).2 hk
    obtain ⟨hf, hok⟩ := advance_sdOk.1 hok
    have hsel : (s.advance i).sdSel k = true := by
      refine advance_sdSel.2 ⟨hf, .inr ?_⟩
      rcases hok with ⟨hgo, rfl⟩ | hok
      · exact (h.go hgo).2
      · exact h.sel k hok
    exact (Lsu.next_flags hr (valid_of_sdSel e h hr hsel hd)).2.2.1.trans hsel
  sel_valid k hk := by
    obtain ⟨hsel, hd⟩ := (bits_of_next hr).1 hk
    exact valid_of_sdSel e h hr hsel hd
  ok_iff k hk := h.ok_iff_next e hr hk
  lt p hp := by
    refine lt_of_lt_of_le ?_ (Nat.le_add_right t.count (s.popMemUq i).toNat)
    rcases mem_captured.1 hp with hp | ⟨hgo, rfl⟩
    · exact h.lt p hp
    · exact e.lt _ (h.go hgo).1
  mg k hmg hk := h.mg_next e d ho hr hmg hk
  blk_valid k hk := (blk_of_next e d h ho hr hk).1
  commits p hp := by
    rw [mem_captured]
    rcases Drains.mem_commits.1 hp with hp | ⟨hi, rfl⟩
    · exact .inl (h.commits p hp)
    · obtain ⟨hl, -, hok, -⟩ := Lsu.of_cmtRdy (Lsu.selectPtr_of_issueCmt hi).2
      exact .inl ((h.ok_iff _ (Lsu.stLive_iff.1 hl).1).1 hok)
  done p hp := by
    rw [Drains.mem_commits]
    rcases List.mem_append.1 hp with hp | hp
    · exact .inl (h.done p hp)
    · obtain ⟨k, hk, rfl⟩ := List.mem_map.1 hp
      obtain ⟨hk, hl⟩ := List.mem_filter.1 hk
      exact .inl ((r.cmt_iff k hl).1 (ho.done k (Option.mem_toList.1 hk)))

end Captures

/-! ## The law -/

section Law

variable [DecidableEq R]

/-- What the LSU keeps with the L1D. -/
structure LsuAnswers (s : Lsu c R) (t : LsuTrace c) : Prop where
  /-- A load in flight is compared with the live stores before it, all of them and no others. -/
  compared : ∀ k j, s.issued k = true → t.turns k j ≤ 1 →
    (L1d.sbOlder s.sbView ⟨t.older k, s.epSnap k⟩ j = true ↔
      s.stLive j = true ∧ t.seat j < t.seat k)
  /-- A blocked load waits for the stores it was told to, as far as they are there: -/
  waits : ∀ k j, s.blkSt k j = true ↔ s.stLive j = true ∧ t.seat j ∈ t.waits k
  /-- they are before it, so that no two wait for each other; -/
  before : ∀ k, ∀ p ∈ t.waits k, p < t.seat k
  /-- and it is released when the last of them leaves. -/
  released : ∀ (i : LsuIn c R) k, s.blk k = .sbConflict → (s.release i k = true ↔
    ∀ j, s.stLive j = true → t.seat j ∈ t.waits k → s.freeEntry i j = true)
  /-- A merging load that was sent has its operand in the store buffer, -/
  merges : ∀ k, s.mg k = true → s.issued k = true ∨ s.blk k ≠ .none → t.seat k ∈ t.captured
  /-- and a store that is committed its data. -/
  captured : ∀ p ∈ t.commits, p ∈ t.captured
  /-- What the L1D has written was committed, -/
  done : ∀ p ∈ t.done, p ∈ t.commits
  /-- and so was every store that retired before one that was. -/
  passed : ∀ p ∈ t.commits, ∀ q ∈ t.retired, q < p → q ∈ t.commits

/-- What a cycle keeps with the answers of the L1D. -/
structure KeptWithL1d (x : Lsu c R × LsuTrace c) : Prop where
  kept : Kept x
  sent : Sent x.1 x.2
  waits : Waits x.1 x.2
  captures : Captures x.1 x.2

namespace KeptWithL1d

variable {x : Lsu c R × LsuTrace c}

theorem reset (x : Lsu c R × LsuTrace c) (i : LsuIn c R) :
    KeptWithL1d (lsuStep x { i with reset := true }) :=
  ⟨Kept.reset x i, Sent.cleared _, Waits.cleared _, Captures.cleared _⟩

theorem step (h : KeptWithL1d x) {i : LsuIn c R} (ho : Answered x i) :
    KeptWithL1d (lsuStep x i) := by
  refine ⟨h.kept.step i, ?_, ?_, ?_⟩ <;> rcases hr : i.reset with _ | _ <;>
    simp only [lsuStep, hr, Bool.false_eq_true, if_false, if_true]
  · exact h.sent.next h.kept.1 hr
  · simpa only [Lsu.next, hr, if_true] using Sent.cleared _
  · exact h.waits.next h.kept.1 h.sent ho hr
  · simpa only [Lsu.next, hr, if_true] using Waits.cleared _
  · exact h.captures.next h.kept.1 h.kept.2 h.sent ho hr
  · simpa only [Lsu.next, hr, if_true] using Captures.cleared _

theorem law (h : KeptWithL1d x) : LsuAnswers x.1 x.2 where
  compared k j hk hle := h.sent.sbOlder_iff hk hle
  waits := h.waits.blkSt
  before k p hp := (h.waits.past k p hp).1
  released i k hb := by
    have hrel : x.1.release i k = true ↔
        ∀ j, (x.1.blkSt k j && !x.1.freeEntry i j) = false := by
      simp [Lsu.release, hb]
    rw [hrel]
    refine forall_congr' fun j => ?_
    have hw := h.waits.blkSt k j
    rcases hbs : x.1.blkSt k j with _ | _
    · rw [hbs] at hw
      exact iff_of_true rfl fun hl hp => absurd (hw.2 ⟨hl, hp⟩) Bool.false_ne_true
    · obtain ⟨hl, hp⟩ := hw.1 hbs
      rw [Bool.true_and, Bool.not_eq_false']
      exact ⟨fun hf _ _ => hf, fun hf => hf hl hp⟩
  merges k hmg hk :=
    have hv := hk.elim (h.sent.issued_valid k) (h.captures.blk_valid k)
    (h.captures.ok_iff k hv).1 (h.captures.mg k hmg hk)
  captured := h.captures.commits
  done := h.captures.done
  passed p hp q hq hlt := by
    have hkept := StoreOrder.of_drains h.kept.1 h.kept.2
    rcases hkept.passed p hp q hq hlt with hc | hd
    · exact hc
    · exact h.captures.done q hd

end KeptWithL1d

/-- **The LSU and the L1D agree on which stores a load is behind.**  After a reset the law holds in
every cycle of every run whose answers are about what was sent. -/
theorem lsu_answers (x : Lsu c R × LsuTrace c) (i : LsuIn c R) (is : List (LsuIn c R))
    (h : Hw.RunOk lsuStep Answered (lsuStep x { i with reset := true }) is) :
    let y := Hw.run lsuStep (lsuStep x { i with reset := true }) is
    LsuAnswers y.1 y.2 :=
  (h.invariant (fun _ _ hk ho => hk.step ho) (KeptWithL1d.reset x i)).law

instance (x : Lsu c R × LsuTrace c) (i : LsuIn c R) : Decidable (Answered x i) :=
  decidable_of_iff
    ((i.rspValid = true → i.rspHold = true →
        x.1.issued i.rspIdx = true ∨ x.1.blk i.rspIdx ≠ .none) ∧
      (∀ k, i.stDone = some k → x.1.cmt k = true) ∧
      (i.blkValid = true → x.1.issued i.rspIdx = true ∧ ∀ j, i.blkSt j = true →
        x.2.older i.rspIdx j = true ∧ x.2.turns i.rspIdx j ≤ 1))
    ⟨fun h => ⟨h.1, h.2.1, h.2.2⟩, fun h => ⟨h.rsp, h.done, h.blk⟩⟩

end Law

/-! ### A run: a load is told to wait for the store before it -/

section Run

/-- Four entries. -/
def fourEntries : LsuCfg := ⟨0, 4⟩

/-- A cycle in which nothing comes and nothing is answered. -/
def idleLsuIn : LsuIn fourEntries ℕ where
  reset := false
  dsDone := false
  memUq := none
  memQFull := false
  srcRdy _ := true
  sdSrcRdy _ := true
  headOfRob := none
  nextHeadOfRob := none
  retired := none
  retiredTwo := none
  rspIdx := 0
  rspValid := false
  rspHold := false
  wakeValid := false
  blkValid := false
  blkCode := .none
  blkSt _ := false
  stDone := none

/-- Entries that were never used. -/
def blankLsu : Lsu fourEntries ℕ where
  uops _ := ⟨.sw, 0⟩
  valid _ := false
  ld _ := false
  st _ := false
  ser _ := false
  old1 _ := false
  mg _ := false
  mv _ := false
  issued _ := false
  sdSel _ := false
  sdOk _ := false
  ret _ := false
  cmt _ := false
  ep _ := false
  blk _ := .none
  blkSt _ _ := false
  epSnap _ _ := false
  matrix _ _ := false
  sdGo := false
  sdIdx := 0
  lsuIdx := 0
  lsuHold := false
  commit := false
  olderSt _ := false
  olderEp _ := false

/-- A store and a load come, both are sent, and the load is blocked on the store. -/
def conflictRun : List (LsuIn fourEntries ℕ) :=
  [{ idleLsuIn with memUq := some ⟨.sw, 0⟩ }, { idleLsuIn with memUq := some ⟨.lw, 1⟩ }, idleLsuIn,
    { idleLsuIn with
      rspIdx := 1, blkValid := true, blkCode := .sbConflict, blkSt := fun j => j == 0 }]

/-- The load waits for the store. -/
theorem lsu_answers_conflict :
    let x := lsuStep (blankLsu, LsuTrace.start) { idleLsuIn with reset := true }
    Hw.RunOk lsuStep Answered x conflictRun ∧
      LsuAnswers (Hw.run lsuStep x conflictRun).1 (Hw.run lsuStep x conflictRun).2 ∧
      (Hw.run lsuStep x conflictRun).1.blkSt 1 0 = true := by
  have hok : Hw.RunOk lsuStep Answered
      (lsuStep (blankLsu, LsuTrace.start) { idleLsuIn with reset := true }) conflictRun := by
    decide +kernel
  exact ⟨hok, lsu_answers _ _ _ hok, by decide +kernel⟩

end Run

end Issue

end R9999
