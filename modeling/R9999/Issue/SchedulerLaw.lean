import R9999.Issue.Scheduler

/-!
# The order of issue

`Trace` keeps the uops that were pushed since the last flush, how many of them were popped, the
place of the uop in each entry, and the places and uops that were issued.  `Tracks` is what the
machine keeps with it, and `ScheduleLaw` is what the scheduler is for: the oldest ready uop is
the one that is issued, and each uop has one way through the queue and the entries.
-/

namespace R9999

namespace Issue

open Hw (ringIdx ringPtr lowest oldestReady AgeOrder Seated RingHolds)

variable {c : SchedCfg} {U : Type*}

/-- The history of the uops since the last flush. -/
structure Trace (c : SchedCfg) (U : Type*) where
  /-- in program order -/
  pushed : List U
  popped : ℕ
  seat : Entry c → ℕ
  issued : List (ℕ × U)

namespace Sched

variable (isInt : U → Bool) (s : Sched c U) (i : SchedIn c U)

/-- The uops that the cycle puts into the queue. -/
def pushes : List U :=
  (if s.uqPush i && isInt (s.uqUop i) then [s.uqUop i] else []) ++
    if s.uqPushTwo i && isInt (uqUopTwo i) then [uqUopTwo i] else []

/-- The number of uops that the cycle takes from the queue. -/
def pops : ℕ := if s.popUq2 i then 2 else if s.popUq i then 1 else 0

end Sched

/-- The history after a cycle of the machine. -/
def Trace.next (isInt : U → Bool) (s : Sched c U) (i : SchedIn c U) (t : Trace c U) :
    Trace c U :=
  if i.reset || i.dsDone then ⟨[], 0, t.seat, []⟩
  else
    { pushed := t.pushed ++ s.pushes isInt i
      popped := t.popped + s.pops i
      seat := fun k =>
        if s.alloc2Entry i k then t.popped + 1
        else if s.allocEntry i k then t.popped
        else t.seat k
      issued :=
        if (s.next isInt i).startInt then
          t.issued ++
            [(if s.uqBypass i then t.popped else t.seat (s.selectPtr i), (s.next isInt i).intUop)]
        else t.issued }

/-- One cycle of the machine and its history. -/
def step (isInt : U → Bool) (x : Sched c U × Trace c U) (i : SchedIn c U) :
    Sched c U × Trace c U := (x.1.next isInt i, x.2.next isInt x.1 i)

/-! ### The queue -/

/-- The queue holds the uops that were pushed and not popped. -/
structure Queued (s : Sched c U) (t : Trace c U) : Prop where
  head : s.uqHeadPtr = ringPtr c.lgUq (2 ^ c.lgUq) t.popped
  tail : s.uqTailPtr = ringPtr c.lgUq (2 ^ c.lgUq) t.pushed.length
  nextHead : s.uqNextHeadPtr = ringPtr c.lgUq (2 ^ c.lgUq) (t.popped + 1)
  nextTail : s.uqNextTailPtr = ringPtr c.lgUq (2 ^ c.lgUq) (t.pushed.length + 1)
  le : t.popped ≤ t.pushed.length
  room : t.pushed.length ≤ t.popped + 2 ^ c.lgUq
  slots : RingHolds (2 ^ c.lgUq) s.rUq t.pushed t.popped

namespace Queued

variable {isInt : U → Bool} {s : Sched c U} {t : Trace c U} {i : SchedIn c U}

theorem empty_iff (h : Queued s t) : s.uqEmpty = true ↔ t.pushed.length = t.popped := by
  have hpos := Nat.two_pow_pos c.lgUq
  have hroom := h.room
  rw [Sched.uqEmpty, beq_iff_eq, h.head, h.tail]
  exact Hw.ring_empty_iff hpos le_rfl h.le (by omega)

theorem full_iff (h : Queued s t) :
    s.uqFull = true ↔ t.pushed.length = t.popped + 2 ^ c.lgUq := by
  have hpos := Nat.two_pow_pos c.lgUq
  have hroom := h.room
  rw [Sched.uqFull, Bool.and_eq_true, bne_iff_ne, beq_iff_eq, and_comm, h.head, h.tail]
  exact Hw.ring_full_iff hpos le_rfl h.le (by omega)

theorem nextFull_iff (h : Queued s t) (hroom : t.pushed.length < t.popped + 2 ^ c.lgUq) :
    s.uqNextFull = true ↔ t.pushed.length + 1 = t.popped + 2 ^ c.lgUq := by
  have hpos := Nat.two_pow_pos c.lgUq
  have hle := h.le
  rw [Sched.uqNextFull, Bool.and_eq_true, bne_iff_ne, beq_iff_eq, and_comm, h.head, h.nextTail]
  exact Hw.ring_full_iff hpos le_rfl (by omega) (by omega)

/-- A uop is popped from a queue that has one. -/
theorem lt_of_popUq (h : Queued s t) (hp : s.popUq i = true) :
    t.popped < t.pushed.length := by
  have hne : ¬ s.uqEmpty = true := by
    intro he
    simp [Sched.popUq, Sched.uqBypass, he] at hp
  have hle := h.le
  rw [h.empty_iff] at hne
  omega

/-- Two uops are popped from a queue that has two. -/
theorem lt_of_popUq2 (h : Queued s t) (hp : s.popUq2 i = true) :
    s.popUq i = true ∧ t.popped + 1 < t.pushed.length := by
  simp only [Sched.popUq2, Bool.and_eq_true, bne_iff_ne] at hp
  obtain ⟨-, ⟨hpop, hne⟩, -⟩ := hp
  have hlt := h.lt_of_popUq hpop
  have hroom := h.room
  refine ⟨hpop, lt_of_le_of_ne hlt fun he => hne ?_⟩
  rw [h.nextHead, h.tail, he]

theorem pops_le (h : Queued s t) : t.popped + s.pops i ≤ t.pushed.length := by
  have hle := h.le
  unfold Sched.pops
  split_ifs with h2 h1
  · exact (h.lt_of_popUq2 h2).2
  · exact h.lt_of_popUq h1
  · exact hle

/-- The head of the queue. -/
theorem uq_eq (h : Queued s t) (hlt : t.popped < t.pushed.length) :
    t.pushed[t.popped]? = some s.uq := by
  rw [h.slots _ le_rfl hlt, Sched.uq, h.head,
    Hw.ringIdx_ringPtr (Nat.two_pow_pos c.lgUq) le_rfl]

theorem uq2_eq (h : Queued s t) (hlt : t.popped + 1 < t.pushed.length) :
    t.pushed[t.popped + 1]? = some s.uq2 := by
  rw [h.slots _ (Nat.le_succ _) hlt, Sched.uq2, h.nextHead,
    Hw.ringIdx_ringPtr (Nat.two_pow_pos c.lgUq) le_rfl]

end Queued

namespace Sched

variable (isInt : U → Bool) (s : Sched c U) (i : SchedIn c U)

theorem nextHead_ptr (p : ℕ) :
    s.nextHead i (ringPtr c.lgUq (2 ^ c.lgUq) p) = ringPtr c.lgUq (2 ^ c.lgUq) (p + s.pops i) := by
  unfold nextHead pops
  split_ifs
  · exact Hw.ringPtr_pow2_add c.lgUq p 2
  · exact Hw.ringPtr_pow2_add c.lgUq p 1
  · rfl

/-- What a cycle can put into the queue: nothing, one uop when there is room for one, or two
when there is room for two. -/
theorem push_cases :
    (s.pushes isInt i = [] ∧ (∀ p, s.nextTail isInt i p = p) ∧ s.nextUq isInt i = s.rUq) ∨
    (∃ u, s.pushes isInt i = [u] ∧ (∀ p, s.nextTail isInt i p = p + 1) ∧
      s.nextUq isInt i = Function.update s.rUq (ringIdx s.uqTailPtr) u ∧ s.uqFull = false) ∨
    (∃ u v, s.pushes isInt i = [u, v] ∧ (∀ p, s.nextTail isInt i p = p + 2) ∧
      s.nextUq isInt i = Function.update (Function.update s.rUq (ringIdx s.uqTailPtr) u)
        (ringIdx s.uqNextTailPtr) v ∧ s.uqFull = false ∧ s.uqNextFull = false) := by
  have hroom : s.uqPush i = true → s.uqFull = false := by
    simp only [uqPush, push1, push2, coreAllocTwo, coreAlloc]
    cases s.uqFull <;> simp
  have hroom2 : s.uqPushTwo i = true → s.uqPush i = true ∧ s.uqNextFull = false := by
    simp only [uqPush, uqPushTwo, push1, push2, coreAllocTwo, coreAlloc]
    cases s.uqNextFull <;> simp
    tauto
  rcases h2 : s.uqPushTwo i with _ | _
  · rcases h1 : s.uqPush i && isInt (s.uqUop i) with _ | _
    · refine .inl ⟨by simp [pushes, h1, h2], fun p => ?_, ?_⟩
      · simp [nextTail, pushTwoInt, h1, h2]
      · simp [nextUq, pushTwoInt, pushOneInt, h1, h2]
    · rw [Bool.and_eq_true] at h1
      obtain ⟨hu, hv⟩ := h1
      refine .inr (.inl ⟨s.uqUop i, by simp [pushes, hu, hv, h2], fun p => ?_, ?_, hroom hu⟩)
      · simp [nextTail, pushTwoInt, hu, hv, h2]
      · simp [nextUq, pushTwoInt, pushOneInt, hu, hv, h2]
  · obtain ⟨h1, hnf⟩ := hroom2 h2
    rcases hu : isInt (s.uqUop i) with _ | _ <;> rcases hv : isInt (uqUopTwo i) with _ | _
    · refine .inl ⟨by simp [pushes, hu, hv], fun p => ?_, ?_⟩
      · simp [nextTail, pushTwoInt, hu, hv]
      · simp [nextUq, pushTwoInt, pushOneInt, hu, hv]
    · refine .inr (.inl ⟨uqUopTwo i, by simp [pushes, h2, hu, hv], fun p => ?_, ?_, hroom h1⟩)
      · simp [nextTail, pushTwoInt, h2, hu, hv]
      · simp [nextUq, pushTwoInt, pushOneInt, h2, hu, hv]
    · refine .inr (.inl ⟨s.uqUop i, by simp [pushes, h1, hu, hv], fun p => ?_, ?_, hroom h1⟩)
      · simp [nextTail, pushTwoInt, h1, hu, hv]
      · simp [nextUq, pushTwoInt, pushOneInt, h1, hu, hv]
    · refine .inr (.inr ⟨s.uqUop i, uqUopTwo i, by simp [pushes, h1, h2, hu, hv],
        fun p => ?_, ?_, hroom h1, hnf⟩)
      · simp [nextTail, pushTwoInt, h1, h2, hu, hv]
      · simp [nextUq, pushTwoInt, h1, h2, hu, hv]

end Sched

namespace Queued

variable {isInt : U → Bool} {s : Sched c U} {t : Trace c U} {i : SchedIn c U}

/-- What the pushes of a cycle do to the queue. -/
theorem push (isInt : U → Bool) (i : SchedIn c U) (h : Queued s t) :
    let l := t.pushed ++ s.pushes isInt i
    (∀ p, s.nextTail isInt i (ringPtr c.lgUq (2 ^ c.lgUq) p) =
        ringPtr c.lgUq (2 ^ c.lgUq) (p + (s.pushes isInt i).length)) ∧
      l.length ≤ t.popped + 2 ^ c.lgUq ∧ RingHolds (2 ^ c.lgUq) (s.nextUq isInt i) l t.popped := by
  have hpos := Nat.two_pow_pos c.lgUq
  have hroom := h.room
  have htail : ringIdx s.uqTailPtr = t.pushed.length % 2 ^ c.lgUq := by
    rw [h.tail, Hw.ringIdx_ringPtr hpos le_rfl]
  have hnext : ringIdx s.uqNextTailPtr = (t.pushed.length + 1) % 2 ^ c.lgUq := by
    rw [h.nextTail, Hw.ringIdx_ringPtr hpos le_rfl]
  have hlt (hf : s.uqFull = false) : t.pushed.length < t.popped + 2 ^ c.lgUq :=
    lt_of_le_of_ne hroom fun he => by simp [h.full_iff.2 he] at hf
  obtain ⟨hp, ht, hm⟩ | ⟨u, hp, ht, hm, hf⟩ | ⟨u, v, hp, ht, hm, hf, hn⟩ := s.push_cases isInt i
  · rw [hp, hm, List.append_nil]
    exact ⟨fun p => ht _, hroom, h.slots⟩
  · rw [hp, hm, htail]
    refine ⟨fun p => ?_, ?_, h.slots.push (hlt hf) u⟩
    · rw [ht]
      exact Hw.ringPtr_pow2_add c.lgUq p 1
    · rw [List.length_append]
      exact hlt hf
  · have hlt2 : t.pushed.length + 1 < t.popped + 2 ^ c.lgUq := by
      refine lt_of_le_of_ne (hlt hf) fun he => ?_
      simp [(h.nextFull_iff (hlt hf)).2 he] at hn
    have hone : (t.pushed ++ [u]).length = t.pushed.length + 1 := by
      rw [List.length_append, List.length_singleton]
    rw [hp, hm, htail, hnext]
    refine ⟨fun p => ?_, ?_, ?_⟩
    · rw [ht]
      exact Hw.ringPtr_pow2_add c.lgUq p 2
    · rw [List.length_append]
      exact hlt2
    · have hslots := (h.slots.push (hlt hf) u).push (by rw [hone]; exact hlt2) v
      rwa [hone, List.append_assoc] at hslots

/-- The queue of a machine that was reset or flushed. -/
theorem flushed (hf : (i.reset || i.dsDone) = true) :
    Queued (s.next isInt i) (t.next isInt s i) := by
  have hpos := Nat.two_pow_pos c.lgUq
  have ht : t.next isInt s i = ⟨[], 0, t.seat, []⟩ := if_pos hf
  rw [ht]
  refine ⟨?_, ?_, ?_, ?_, le_rfl, Nat.zero_le _, fun p _ hp => absurd hp (Nat.not_lt_zero p)⟩ <;>
    · rw [Hw.ringPtr_pow2]
      simp only [Sched.next, hf, if_true]
      rfl

/-- **The queue is kept.** -/
theorem next (h : Queued s t) : Queued (s.next isInt i) (t.next isInt s i) := by
  by_cases hf : (i.reset || i.dsDone) = true
  · exact flushed hf
  obtain ⟨htail, hroom, hslots⟩ := h.push isInt i
  have hpops := h.pops_le (i := i)
  have ht : (t.next isInt s i).pushed = t.pushed ++ s.pushes isInt i ∧
      (t.next isInt s i).popped = t.popped + s.pops i := by
    simp [Trace.next, hf]
  obtain ⟨hpu, hpo⟩ := ht
  refine ⟨?_, ?_, ?_, ?_, ?_, ?_, ?_⟩
  · simp only [Sched.next, hf, Bool.false_eq_true, if_false]
    rw [h.head, s.nextHead_ptr, hpo]
  · simp only [Sched.next, hf, Bool.false_eq_true, if_false]
    rw [h.tail, htail, hpu, List.length_append]
  · simp only [Sched.next, hf, Bool.false_eq_true, if_false]
    rw [h.nextHead, s.nextHead_ptr, hpo, Nat.add_right_comm]
  · simp only [Sched.next, hf, Bool.false_eq_true, if_false]
    rw [h.nextTail, htail, hpu, List.length_append, Nat.add_right_comm]
  · rw [hpu, hpo, List.length_append]
    omega
  · rw [hpu, hpo]
    omega
  · rw [hpu, hpo]
    exact hslots.drop (Nat.le_add_right _ _)

end Queued

/-! ### The entries -/

namespace Sched

variable {isInt : U → Bool} {s : Sched c U} {i : SchedIn c U} {k : Entry c}

theorem free_of_allocEntry (h : s.allocEntry i k = true) : s.free k = true := by
  simp only [allocEntry, Bool.and_eq_true, Bool.not_eq_true', beq_iff_eq] at h
  obtain ⟨⟨hpop, hby⟩, rfl⟩ := h
  refine Hw.lowest_set ?_
  have hfull : s.schedFull = false := by
    simp only [popUq, hby, Bool.or_false, Bool.not_eq_true', Bool.or_eq_false_iff] at hpop
    exact hpop.2
  simp only [schedFull, decide_eq_false_iff_not, not_forall] at hfull
  obtain ⟨k, hk⟩ := hfull
  exact ⟨k, by simpa [free] using hk⟩

theorem free2_of_alloc2Entry (h : s.alloc2Entry i k = true) : s.free2 k = true := by
  simp only [alloc2Entry, popUq2, Bool.and_eq_true, decide_eq_true_eq, beq_iff_eq] at h
  obtain ⟨⟨-, -, hex⟩, rfl⟩ := h
  exact Hw.lowest_set hex

theorem free_of_alloc2Entry (h : s.alloc2Entry i k = true) : s.free k = true := by
  have h2 := free2_of_alloc2Entry h
  rw [free2, Bool.and_eq_true] at h2
  exact h2.1

/-- The two allocations of a cycle are of two entries. -/
theorem not_alloc_of_alloc2 (h : s.alloc2Entry i k = true) : s.allocEntry i k = false := by
  have h2 := free2_of_alloc2Entry h
  simp only [free2, Bool.and_eq_true, Bool.not_eq_true'] at h2
  rw [allocEntry, h2.2, Bool.and_false]

theorem valid_of_free (h : s.free k = true) : s.aluSchedValid k = false ∧ usable k = true := by
  simpa [free] using h

theorem valid_of_entryRdy (h : s.entryRdy i k = true) : s.aluSchedValid k = true :=
  (Bool.and_eq_true _ _ ▸ h).1

theorem selectEntry_of_not_rdy (h : s.anyRdy i = false) : s.selectEntry i k = false := by
  rw [selectEntry, h, Bool.false_and]

/-- A bypass leaves the entries alone. -/
theorem not_rdy_of_bypass (h : s.uqBypass i = true) :
    s.anyRdy i = false ∧ s.popUq i = true ∧ ∀ k, s.allocEntry i k = false := by
  refine ⟨?_, ?_, fun k => ?_⟩
  · simp only [uqBypass, Bool.and_eq_true, Bool.not_eq_true'] at h
    exact h.2.1.2
  · simp [popUq, h]
  · simp [allocEntry, h]

/-- **The oldest ready uop is selected**, and no other. -/
theorem selectPtr_spec {seat : Entry c → ℕ}
    (h : AgeOrder s.aluSchedValid s.aluSchedMatrix seat) (hr : s.anyRdy i = true) :
    s.entryRdy i (s.selectPtr i) = true ∧
      ∀ j, s.entryRdy i j = true → seat (s.selectPtr i) ≤ seat j := by
  have hv (k : Entry c) (hk : s.entryRdy i k = true) : s.aluSchedValid k = true :=
    valid_of_entryRdy hk
  obtain ⟨k, hk, -⟩ := h.existsUnique_oldestReady hv (of_decide_eq_true hr)
  have hset : s.oldestRdy i (s.selectPtr i) = true := Hw.lowest_set ⟨k, hk⟩
  exact (h.oldestReady_iff hv _).1 hset

theorem valid_of_selectEntry {seat : Entry c → ℕ}
    (h : AgeOrder s.aluSchedValid s.aluSchedMatrix seat) (hk : s.selectEntry i k = true) :
    s.aluSchedValid k = true := by
  rw [selectEntry, Bool.and_eq_true, beq_iff_eq] at hk
  obtain ⟨hr, rfl⟩ := hk
  exact valid_of_entryRdy (selectPtr_spec h hr).1

/-- The entries after a cycle: those that stay, and those that came. -/
theorem nextValid_eq (hsel : s.selectEntry i k = true → s.aluSchedValid k = true) :
    s.nextValid i k = ((s.schedMaskValid i k || s.allocEntry i k) || s.alloc2Entry i k) := by
  have hsel' : s.aluSchedValid k = false → s.selectEntry i k = false := fun hv =>
    eq_false_of_ne_true fun hs => by simp [hsel hs] at hv
  unfold nextValid schedMaskValid
  rcases h2 : s.alloc2Entry i k with _ | _
  · rcases h1 : s.allocEntry i k with _ | _
    · cases s.selectEntry i k <;> simp
    · obtain ⟨hv, hu⟩ := valid_of_free (free_of_allocEntry h1)
      simp [hsel' hv, hu]
  · obtain ⟨hv, hu⟩ := valid_of_free (free_of_alloc2Entry h2)
    simp [hsel' hv, hu]

/-- The rows after a cycle: those of the entries that stay have the column of the one that
leaves cleared, and each new one is of the entries before it. -/
theorem nextMatrix_eq (j : Entry c) :
    s.nextMatrix i k j =
      if s.alloc2Entry i k then s.schedMaskValid i j || s.allocEntry i j
      else if s.allocEntry i k then s.schedMaskValid i j
      else s.aluSchedMatrix k j && !s.selectEntry i j := by
  unfold nextMatrix
  rcases h2 : s.alloc2Entry i k with _ | _
  · rcases hr : s.anyRdy i with _ | _ <;> cases s.allocEntry i k <;>
      simp [selectEntry_of_not_rdy, hr]
  · simp [not_alloc_of_alloc2 h2]

end Sched

/-- The entries hold uops in the order of their places, and each place that left the queue is
that of one entry or was issued. -/
structure Entries (s : Sched c U) (t : Trace c U) : Prop where
  ages : AgeOrder s.aluSchedValid s.aluSchedMatrix t.seat
  seated : Seated s.aluSchedValid t.seat (t.issued.map Prod.fst) t.popped
  uops : ∀ k, s.aluSchedValid k = true → t.pushed[t.seat k]? = some (s.aluSchedUops k)
  usable : ∀ k, s.aluSchedValid k = true → usable k = true
  issued : ∀ x ∈ t.issued, t.pushed[x.1]? = some x.2

namespace Entries

variable {isInt : U → Bool} {s : Sched c U} {t : Trace c U} {i : SchedIn c U}

theorem flushed (hf : (i.reset || i.dsDone) = true) :
    Entries (s.next isInt i) (t.next isInt s i) := by
  have ht : t.next isInt s i = ⟨[], 0, t.seat, []⟩ := if_pos hf
  have hv (k : Entry c) : (s.next isInt i).aluSchedValid k = false := by
    simp only [Sched.next, hf, if_true]
  rw [ht]
  refine ⟨AgeOrder.empty hv, Seated.empty hv, fun k hk => ?_, fun k hk => ?_, by simp⟩ <;>
    · rw [hv k] at hk
      exact absurd hk Bool.false_ne_true

/-- The rows stay the order of the places. -/
theorem ages_next (h : Entries s t) :
    AgeOrder (s.nextValid i) (s.nextMatrix i) fun k =>
      if s.alloc2Entry i k then t.popped + 1 else if s.allocEntry i k then t.popped
      else t.seat k := by
  have hsel (k : Entry c) := Sched.valid_of_selectEntry (i := i) (k := k) h.ages
  have hstay (k : Entry c) (hk : s.schedMaskValid i k = true) : s.aluSchedValid k = true :=
    ((Bool.and_eq_true _ _).mp hk).1
  have hleave := h.ages.leave (s.selectEntry i)
  have halloc := hleave.enter (s.allocEntry i) t.popped
    (fun k hk => by simp [(Sched.valid_of_free (Sched.free_of_allocEntry hk)).1])
    (fun j k hj hk => by
      simp only [Sched.allocEntry, Bool.and_eq_true, beq_iff_eq] at hj hk
      rw [hj.2, hk.2])
    fun k hk => h.seated.lt (hstay k hk)
  have halloc2 := halloc.enter (s.alloc2Entry i) (t.popped + 1)
    (fun k hk => by
      simp [(Sched.valid_of_free (Sched.free_of_alloc2Entry hk)).1, Sched.not_alloc_of_alloc2 hk])
    (fun j k hj hk => by
      simp only [Sched.alloc2Entry, Bool.and_eq_true, beq_iff_eq] at hj hk
      rw [hj.2, hk.2])
    fun k hk => by
      split_ifs with ha
      · exact Nat.lt_succ_self _
      · rw [eq_false_of_ne_true ha, Bool.or_false] at hk
        exact (h.seated.lt (hstay k hk)).trans (Nat.lt_succ_self _)
  have hv : s.nextValid i =
      fun k => ((s.schedMaskValid i k || s.allocEntry i k) || s.alloc2Entry i k) :=
    funext fun k => Sched.nextValid_eq (hsel k)
  have hm : s.nextMatrix i = fun k j =>
      if s.alloc2Entry i k then s.schedMaskValid i j || s.allocEntry i j
      else if s.allocEntry i k then s.schedMaskValid i j
      else s.aluSchedMatrix k j && !s.selectEntry i j :=
    funext fun k => funext fun j => Sched.nextMatrix_eq j
  rw [hv, hm]
  exact halloc2

/-- The uop that is issued leaves its place in an entry, or at the head of the queue, and the
places that are popped are those of the entries that come. -/
theorem seated_next (isInt : U → Bool) (h : Entries s t) (q : Queued s t) (hf : ¬ (i.reset || i.dsDone) = true) :
    Seated (s.nextValid i) (fun k =>
      if s.alloc2Entry i k then t.popped + 1 else if s.allocEntry i k then t.popped
      else t.seat k) ((t.next isInt s i).issued.map Prod.fst) (t.popped + s.pops i) := by
  have hsel (k : Entry c) := Sched.valid_of_selectEntry (i := i) (k := k) h.ages
  have hv : s.nextValid i =
      fun k => ((s.schedMaskValid i k || s.allocEntry i k) || s.alloc2Entry i k) :=
    funext fun k => Sched.nextValid_eq (hsel k)
  obtain ⟨hreset, hds⟩ : i.reset = false ∧ i.dsDone = false := by simpa using hf
  -- one place is popped, into an entry or around them
  have hone : Seated (fun k => s.schedMaskValid i k || s.allocEntry i k)
      (fun k => if s.allocEntry i k then t.popped else t.seat k)
      ((t.next isInt s i).issued.map Prod.fst) (t.popped + if s.popUq i then 1 else 0) := by
    rcases hby : s.uqBypass i with _ | _
    · have hleave : Seated (s.schedMaskValid i) t.seat ((t.next isInt s i).issued.map Prod.fst)
          t.popped := by
        rcases hr : s.anyRdy i with _ | _
        · have hmask : s.schedMaskValid i = s.aluSchedValid := funext fun k => by
            rw [Sched.schedMaskValid, Sched.selectEntry_of_not_rdy hr, Bool.not_false,
              Bool.and_true]
          have hi : (t.next isInt s i).issued = t.issued := by
            simp [Trace.next, Sched.next, hreset, hds, hr, hby]
          rw [hmask, hi]
          exact h.seated
        · have hi : (t.next isInt s i).issued.map Prod.fst =
              t.issued.map Prod.fst ++ [t.seat (s.selectPtr i)] := by
            simp [Trace.next, Sched.next, hreset, hds, hr, hby]
          rw [hi]
          refine h.seated.leave (hsel _ ?_) fun k => ?_
          · simp [Sched.selectEntry, hr]
          · simp [Sched.selectEntry, hr]
      rcases hp : s.popUq i with _ | _
      · have halloc (k : Entry c) : s.allocEntry i k = false := by simp [Sched.allocEntry, hp]
        simpa [halloc] using hleave
      · have halloc (k : Entry c) : s.allocEntry i k = true ↔ k = s.allocPtr := by
          simp [Sched.allocEntry, hp, hby]
        refine hleave.enter ?_ halloc
        simp [Sched.schedMaskValid,
          (Sched.valid_of_free (Sched.free_of_allocEntry ((halloc _).2 rfl))).1]
    · obtain ⟨hr, hp, ha⟩ := Sched.not_rdy_of_bypass hby
      have hmask (k : Entry c) : s.schedMaskValid i k = s.aluSchedValid k := by
        rw [Sched.schedMaskValid, Sched.selectEntry_of_not_rdy hr, Bool.not_false, Bool.and_true]
      have hi : (t.next isInt s i).issued.map Prod.fst =
          t.issued.map Prod.fst ++ [t.popped] := by
        simp [Trace.next, Sched.next, hreset, hds, hby]
      rw [hi]
      simpa [hmask, ha, hp] using h.seated.skip
  rw [hv]
  rcases h2 : s.popUq2 i with _ | _
  · have halloc2 (k : Entry c) : s.alloc2Entry i k = false := by simp [Sched.alloc2Entry, h2]
    simpa [halloc2, Sched.pops, h2] using hone
  · have halloc2 (k : Entry c) : s.alloc2Entry i k = true ↔ k = s.alloc2Ptr := by
      simp [Sched.alloc2Entry, h2]
    have hpop := (q.lt_of_popUq2 h2).1
    rw [hpop, if_pos rfl] at hone
    rw [Sched.pops, if_pos h2]
    refine hone.enter ?_ halloc2
    have hk := (halloc2 s.alloc2Ptr).2 rfl
    simp [Sched.schedMaskValid, Sched.not_alloc_of_alloc2 hk,
      (Sched.valid_of_free (Sched.free_of_alloc2Entry hk)).1]

/-- **The entries are kept.** -/
theorem next (h : Entries s t) (q : Queued s t) :
    Entries (s.next isInt i) (t.next isInt s i) := by
  by_cases hf : (i.reset || i.dsDone) = true
  · exact flushed hf
  have hages := h.ages_next (i := i)
  have hseated := h.seated_next isInt q hf
  have hkeep {p : ℕ} {u : U} (hp : t.pushed[p]? = some u) :
      (t.pushed ++ s.pushes isInt i)[p]? = some u := by
    rw [List.getElem?_append_left (List.getElem?_eq_some_iff.1 hp).1]
    exact hp
  have hsel (k : Entry c) := Sched.valid_of_selectEntry (i := i) (k := k) h.ages
  refine ⟨?_, ?_, fun k hk => ?_, fun k hk => ?_, fun x hx => ?_⟩
  · simpa only [Sched.next, Trace.next, hf, Bool.false_eq_true, if_false] using hages
  · have hn : (t.next isInt s i).popped = t.popped + s.pops i := by simp [Trace.next, hf]
    rw [hn]
    simpa only [Sched.next, Trace.next, hf, Bool.false_eq_true, if_false] using hseated
  · simp only [Sched.next, hf, Bool.false_eq_true, if_false] at hk
    simp only [Sched.next, Trace.next, Sched.nextUops, hf, Bool.false_eq_true, if_false]
    split_ifs with h2 h1
    · have hpop : s.popUq2 i = true := ((Bool.and_eq_true _ _).mp h2).1
      exact hkeep (q.uq2_eq (q.lt_of_popUq2 hpop).2)
    · simp only [Sched.allocEntry, Bool.and_eq_true] at h1
      exact hkeep (q.uq_eq (q.lt_of_popUq h1.1.1))
    · rw [Sched.nextValid_eq (hsel k), eq_false_of_ne_true h1, eq_false_of_ne_true h2,
        Bool.or_false, Bool.or_false] at hk
      exact hkeep (h.uops k ((Bool.and_eq_true _ _).mp hk).1)
  · simp only [Sched.next, hf, Bool.false_eq_true, if_false] at hk
    unfold Sched.nextValid at hk
    split_ifs at hk
    · exact hk
    · exact hk
    · exact h.usable k hk
  · have hpu : (t.next isInt s i).pushed = t.pushed ++ s.pushes isInt i := by
      simp [Trace.next, hf]
    rw [hpu]
    simp only [Trace.next, hf, Bool.false_eq_true, if_false] at hx
    by_cases hs : (s.next isInt i).startInt = true
    · rw [if_pos hs, List.mem_append, List.mem_singleton] at hx
      rcases hx with hx | rfl
      · exact hkeep (h.issued x hx)
      refine hkeep ?_
      rcases hby : s.uqBypass i with _ | _
      · have hr : s.anyRdy i = true := by
          simp only [Sched.next, hby, Bool.or_false] at hs
          split_ifs at hs
          exact ((Bool.and_eq_true _ _).mp hs).1
        have huop := h.uops _ (Sched.valid_of_entryRdy (Sched.selectPtr_spec h.ages hr).1)
        simpa [Sched.next, Sched.pickedUop, hby] using huop
      · have huq := q.uq_eq (q.lt_of_popUq (Sched.not_rdy_of_bypass hby).2.1)
        simpa [Sched.next, Sched.pickedUop, hby] using huq
    · rw [if_neg hs] at hx
      exact hkeep (h.issued x hx)

end Entries

/-! ### The law -/

/-- What the scheduler is for.  The places are those of the pushes since the last flush. -/
structure ScheduleLaw (s : Sched c U) (t : Trace c U) : Prop where
  /-- The matrix is the order of the pushes. -/
  order : ∀ j k, s.aluSchedValid j = true → s.aluSchedValid k = true →
    (s.aluSchedMatrix k j = true ↔ t.seat j < t.seat k)
  strict : ∀ j k, s.aluSchedValid j = true → s.aluSchedValid k = true → t.seat j = t.seat k →
    j = k
  /-- When an entry is ready the oldest ready one is selected, and no other. -/
  selects : ∀ i, (∃ k, s.entryRdy i k = true) → ∃ k, (∀ j, s.selectEntry i j = true ↔ j = k) ∧
    s.entryRdy i k = true ∧ ∀ j, s.entryRdy i j = true → t.seat k ≤ t.seat j
  /-- The new uops go to different free entries that may be used. -/
  allocates : ∀ i k, s.allocEntry i k = true ∨ s.alloc2Entry i k = true →
    s.aluSchedValid k = false ∧ usable k = true ∧ (s.allocEntry i k && s.alloc2Entry i k) = false
  /-- The uops that were pushed and not popped are in the queue. -/
  queued : ∀ p, t.popped ≤ p → p < t.pushed.length →
    t.pushed[p]? = some (s.rUq (p % 2 ^ c.lgUq))
  /-- A uop that was popped is in an entry or was issued, -/
  placed : ∀ p, p < t.popped ↔
    (∃ k, s.aluSchedValid k = true ∧ t.seat k = p) ∨ p ∈ t.issued.map Prod.fst
  /-- not both, -/
  apart : ∀ k, s.aluSchedValid k = true → t.seat k ∉ t.issued.map Prod.fst
  /-- and issued once. -/
  once : (t.issued.map Prod.fst).Nodup
  /-- The entries hold the uops that were pushed, -/
  uops : ∀ k, s.aluSchedValid k = true → t.pushed[t.seat k]? = some (s.aluSchedUops k)
  /-- and those are the uops that were issued. -/
  issued : ∀ x ∈ t.issued, t.pushed[x.1]? = some x.2
  usable : ∀ k : Entry c, s.aluSchedValid k = true → k.val < c.intSchedEntries

theorem ScheduleLaw.of_tracks {s : Sched c U} {t : Trace c U} (q : Queued s t)
    (e : Entries s t) : ScheduleLaw s t where
  order j k hj hk := e.ages.row k j hk hj
  strict := e.ages.inj
  selects i hr := by
    have hany : s.anyRdy i = true := decide_eq_true hr
    obtain ⟨hrdy, hmin⟩ := Sched.selectPtr_spec e.ages hany
    exact ⟨s.selectPtr i, fun j => by simp [Sched.selectEntry, hany], hrdy, hmin⟩
  allocates i k hk := by
    have hfree : s.free k = true := hk.elim Sched.free_of_allocEntry Sched.free_of_alloc2Entry
    obtain ⟨hv, hu⟩ := Sched.valid_of_free hfree
    refine ⟨hv, hu, ?_⟩
    rcases h2 : s.alloc2Entry i k with _ | _
    · exact Bool.and_false _
    · rw [Sched.not_alloc_of_alloc2 h2, Bool.false_and]
  queued := q.slots
  placed := e.seated.placed
  apart := e.seated.fresh
  once := e.seated.nodup
  uops := e.uops
  issued := e.issued
  usable k hk := of_decide_eq_true (e.usable k hk)

/-- **Age-ordered scheduling.**  After a reset the law holds in every cycle of every run, for
whatever is pushed, ready and flushed. -/
theorem scheduler_law (isInt : U → Bool) (x : Sched c U × Trace c U) (i : SchedIn c U)
    (is : List (SchedIn c U)) :
    let y := Hw.run (step isInt) (step isInt x { i with reset := true }) is
    ScheduleLaw y.1 y.2 := by
  intro y
  have hinv : Queued y.1 y.2 ∧ Entries y.1 y.2 :=
    Hw.run_invariant (I := fun z : Sched c U × Trace c U => Queued z.1 z.2 ∧ Entries z.1 z.2)
      (fun z i h => ⟨h.1.next, h.2.next h.1⟩)
      ⟨Queued.flushed (Bool.true_or _), Entries.flushed (Bool.true_or _)⟩ is
  exact ScheduleLaw.of_tracks hinv.1 hinv.2

end Issue

end R9999
