import R9999.Issue.Lsu

/-!
# The order of the memory operations

Loads pass each other; what the LSU keeps of the program order is what a store needs.  No entry
issues before every older strict op is gone and every older store has sent its address, the stores
are committed in program order, each once and after its retirement, and a flush takes none that
has retired.

The law is about the places of the uops in the order of their allocation.  `Placed` is what a cycle
keeps of the entries, `Drains` of the stores, and `Sent` of what an entry was sent with.
-/

namespace R9999

namespace Issue

open Hw (lowest_set oldestReady AgeOrder)

variable {c : LsuCfg} {R : Type*}

namespace Lsu

variable {s : Lsu c R} {i : LsuIn c R} {k : Slot c}

/-! ### What a cycle does -/

theorem stLive_iff : s.stLive k = true ↔ s.valid k = true ∧ s.st k = true := by
  rw [stLive, Bool.and_eq_true]

theorem valid_of_freeEntry (h : s.freeEntry i k = true) : s.valid k = true :=
  ((Bool.and_eq_true _ _).mp h).1

/-- A uop is given to a free entry that may be used. -/
theorem free_of_allocEntry (h : s.allocEntry i k = true) :
    s.valid k = false ∧ memUsable k = true := by
  simp only [allocEntry, Bool.and_eq_true, beq_iff_eq] at h
  obtain ⟨hpop, rfl⟩ := h
  simp only [popMemUq, Bool.and_eq_true, Bool.not_eq_true', decide_eq_false_iff_not] at hpop
  obtain ⟨⟨-, hroom⟩, -⟩ := hpop
  push Not at hroom
  obtain ⟨j, hj⟩ := hroom
  have hfree : s.free s.allocPtr = true :=
    lowest_set ⟨j, by simpa [free] using hj⟩
  simpa [free] using hfree

theorem allocEntry_inj {j : Slot c} (hj : s.allocEntry i j = true) (hk : s.allocEntry i k = true) :
    j = k := by
  simp only [allocEntry, Bool.and_eq_true, beq_iff_eq] at hj hk
  rw [hj.2, hk.2]

theorem not_alloc_of_valid (h : s.valid k = true) : s.allocEntry i k = false := by
  refine eq_false_of_ne_true fun ha => ?_
  rw [(free_of_allocEntry ha).1] at h
  exact Bool.false_ne_true h

theorem not_free_of_alloc (h : s.allocEntry i k = true) : s.freeEntry i k = false := by
  refine eq_false_of_ne_true fun hf => ?_
  rw [not_alloc_of_valid (valid_of_freeEntry hf)] at h
  exact Bool.false_ne_true h

/-- The uop of an allocated entry is the head of the queue. -/
theorem memUq_of_allocEntry (h : s.allocEntry i k = true) : ∃ u, i.memUq = some u := by
  simp only [allocEntry, popMemUq, Bool.and_eq_true] at h
  exact Option.isSome_iff_exists.1 h.1.1.1

theorem not_flush_of_alloc (h : s.allocEntry i k = true) : i.dsDone = false := by
  simp only [allocEntry, popMemUq, Bool.and_eq_true, Bool.not_eq_true'] at h
  exact h.1.2

/-- An entry that stays keeps its uop and its classes. -/
theorem classNext_of_stay {p : MemOp → Bool} {old : Slot c → Bool} (hf : s.freeEntry i k = false)
    (ha : s.allocEntry i k = false) : s.classNext i p old k = old k := by
  simp [classNext, hf, ha]

/-- An allocated entry has the classes of its uop. -/
theorem classNext_of_alloc {p : MemOp → Bool} {old : Slot c → Bool} {u : MemUop R}
    (ha : s.allocEntry i k = true) (hu : i.memUq = some u) : s.classNext i p old k = p u.op := by
  simp [classNext, not_free_of_alloc ha, ha, hu]

theorem valid_of_elig (h : s.elig i k = true) : s.valid k = true := by
  simp only [elig, entryRdy, Bool.and_eq_true] at h
  exact h.1.1.1.1.1.1.1

theorem issueAddr_iff : s.issueAddr i = true ↔ ∃ j, s.oldestRdy i j = true := by
  rw [issueAddr, decide_eq_true_eq]

theorem selectPtr_of_issueAddr (h : s.issueAddr i = true) : s.selectPtr i = s.pickPtr i := by
  rw [selectPtr, issueCmt, h, Bool.not_true, Bool.and_false, if_neg Bool.false_ne_true]

theorem selectPtr_of_issueCmt (h : s.issueCmt i = true) :
    s.selectPtr i = s.cmtPtr i ∧ s.cmtRdy i (s.cmtPtr i) = true := by
  refine ⟨by rw [selectPtr, h, if_pos rfl], ?_⟩
  rw [issueCmt, Bool.and_eq_true, decide_eq_true_eq] at h
  exact lowest_set h.1

variable [DecidableEq R]

/-- The entries after a cycle: those that stay, and the new one. -/
theorem advance_valid : (s.advance i).valid k =
    ((s.valid k && !s.freeEntry i k) || s.allocEntry i k) := by
  simp only [advance, classNext]
  rcases hf : s.freeEntry i k with _ | _ <;> rcases ha : s.allocEntry i k with _ | _
  · simp
  · obtain ⟨u, hu⟩ := memUq_of_allocEntry ha
    simp [hu]
  · simp
  · rw [not_free_of_alloc ha] at hf
    exact absurd hf Bool.false_ne_true

theorem advance_st (hf : s.freeEntry i k = false) (ha : s.allocEntry i k = false) :
    (s.advance i).st k = s.st k := classNext_of_stay hf ha

theorem advance_mg (hf : s.freeEntry i k = false) (ha : s.allocEntry i k = false) :
    (s.advance i).mg k = s.mg k := classNext_of_stay hf ha

/-- An entry of the next state is one of the cycle without the flush, and a flush leaves the
retired stores. -/
theorem next_valid (hr : i.reset = false) : (s.next i).valid k = true ↔
    (s.advance i).valid k = true ∧ memUsable k = true ∧
      (i.dsDone = true → (s.advance i).st k = true ∧ (s.advance i).ret k = true) := by
  simp only [next, hr, Bool.false_eq_true, if_false]
  rcases hd : i.dsDone with _ | _
  · simp
  · simp only [if_true, flashClear, survive, Bool.and_eq_true, true_implies]
    tauto

/-- What is left by a flush was a retired store. -/
theorem survive_of_next (hr : i.reset = false) (hd : i.dsDone = true)
    (hk : (s.next i).valid k = true) : (s.advance i).survive k = true := by
  obtain ⟨hv, -, hs⟩ := (next_valid hr).1 hk
  simp [survive, hv, hs hd]

/-- A bit that a flush keeps for what it leaves. -/
theorem flush_bit (hr : i.reset = false) (hk : (s.next i).valid k = true) (b : Bool) :
    (if i.dsDone then b && (s.advance i).survive k else b) = b := by
  rcases hd : i.dsDone with _ | _
  · rfl
  · rw [if_pos rfl, survive_of_next hr hd hk, Bool.and_true]

/-- The flags of an entry are those of the cycle without the flush. -/
theorem next_flags (hr : i.reset = false) (hk : (s.next i).valid k = true) :
    (s.next i).st k = (s.advance i).st k ∧ (s.next i).issued k = (s.advance i).issued k ∧
      (s.next i).sdSel k = (s.advance i).sdSel k ∧ (s.next i).sdOk k = (s.advance i).sdOk k ∧
      (s.next i).ret k = (s.advance i).ret k ∧ (s.next i).cmt k = (s.advance i).cmt k := by
  have hs := survive_of_next (s := s) (k := k) hr
  simp only [next, hr, Bool.false_eq_true, if_false]
  rcases hd : i.dsDone with _ | _
  · simp
  · have hsv := hs hd hk
    have hst : (s.advance i).st k = true := by
      simp only [survive, Bool.and_eq_true] at hsv
      exact hsv.1.2
    simp [flashClear, hsv, hst]

/-- An entry of the next state is the new one or one that stays. -/
theorem next_cases (hr : i.reset = false) (hk : (s.next i).valid k = true) :
    (s.allocEntry i k = true ∧ s.valid k = false ∧ i.dsDone = false) ∨
      (s.valid k = true ∧ s.freeEntry i k = false ∧ s.allocEntry i k = false) := by
  have hv := ((next_valid hr).1 hk).1
  rw [advance_valid, Bool.or_eq_true, Bool.and_eq_true, Bool.not_eq_true'] at hv
  rcases hv with ⟨hv, hf⟩ | ha
  · exact .inr ⟨hv, hf, not_alloc_of_valid hv⟩
  · exact .inl ⟨ha, (free_of_allocEntry ha).1, not_flush_of_alloc ha⟩

end Lsu

/-! ## The entries -/

/-- The class bits of an entry are those of its uop. -/
structure Lsu.Classed (s : Lsu c R) (k : Slot c) : Prop where
  ld : s.ld k = L1d.genericLoad (s.uops k).op
  st : s.st k = (s.uops k).op.lsuStore
  ser : s.ser k = (s.uops k).op.serial
  old1 : s.old1 k = (s.uops k).op.old1
  mg : s.mg k = (s.uops k).op.merges
  mv : s.mv k = (s.uops k).op.moves

/-- The entries are those of the uops in the order of their allocation. -/
structure Entered (s : Lsu c R) (t : LsuTrace c) : Prop where
  ages : AgeOrder s.valid s.matrix t.seat
  lt : ∀ k, s.valid k = true → t.seat k < t.count
  usable : ∀ k, s.valid k = true → memUsable k = true
  classed : ∀ k, s.valid k = true → s.Classed k

namespace Lsu.Classed

variable {s : Lsu c R} {k : Slot c}

/-- A store has no other class. -/
theorem of_st (h : s.Classed k) (hs : s.st k = true) :
    s.ld k = false ∧ s.ser k = false ∧ s.mg k = false ∧ s.mv k = false := by
  rw [h.ld, h.ser, h.mg, h.mv]
  rw [h.st] at hs
  generalize (s.uops k).op = op at hs ⊢
  cases op <;> first | exact ⟨rfl, rfl, rfl, rfl⟩ | exact absurd hs (by decide)

end Lsu.Classed

namespace Entered

variable {s : Lsu c R} {t : LsuTrace c} {i : LsuIn c R}

theorem cleared (f : Lsu c R) : Entered f.cleared LsuTrace.start where
  ages := AgeOrder.empty fun _ => rfl
  lt _ hk := absurd hk Bool.false_ne_true
  usable _ hk := absurd hk Bool.false_ne_true
  classed _ hk := absurd hk Bool.false_ne_true

variable [DecidableEq R]

theorem ages_advance (h : Entered s t) :
    AgeOrder (s.advance i).valid (s.advance i).matrix (t.next s i).seat := by
  have hv : (s.advance i).valid = fun k => (s.valid k && !s.freeEntry i k) || s.allocEntry i k :=
    funext fun _ => Lsu.advance_valid
  rw [hv]
  refine (h.ages.leave (s.freeEntry i)).enter (s.allocEntry i) t.count (fun k hk => ?_)
    (fun j k => Lsu.allocEntry_inj) fun k hk => h.lt k ((Bool.and_eq_true _ _).mp hk).1
  rw [(Lsu.free_of_allocEntry hk).1, Bool.false_and]

theorem usable_advance (h : Entered s t) {k : Slot c} (hk : (s.advance i).valid k = true) :
    memUsable k = true := by
  rw [Lsu.advance_valid, Bool.or_eq_true, Bool.and_eq_true] at hk
  rcases hk with ⟨hk, -⟩ | hk
  · exact h.usable k hk
  · exact (Lsu.free_of_allocEntry hk).2

theorem ages_next (h : Entered s t) (hr : i.reset = false) :
    AgeOrder (s.next i).valid (s.next i).matrix (t.next s i).seat := by
  have hadv := h.ages_advance (i := i)
  have hleave := hadv.leave fun k => i.dsDone && !(s.advance i).survive k
  have hv : (s.next i).valid =
      fun k => (s.advance i).valid k && !(i.dsDone && !(s.advance i).survive k) := by
    funext k
    rcases hk : (s.advance i).valid k with _ | _
    · refine eq_false_of_ne_true fun hn => ?_
      rw [((Lsu.next_valid hr).1 hn).1] at hk
      exact Bool.false_ne_true hk.symm
    · have hu := h.usable_advance hk
      rw [Bool.eq_iff_iff, Lsu.next_valid hr]
      simp only [hk, hu, Lsu.survive, true_and, Bool.true_and]
      cases i.dsDone <;> simp
  have hm : (s.next i).matrix =
      fun k j => (s.advance i).matrix k j && !(i.dsDone && !(s.advance i).survive j) := by
    funext k j
    simp only [Lsu.next, hr, Bool.false_eq_true, if_false]
    cases i.dsDone <;> simp [Lsu.flashClear]
  rw [hv, hm]
  exact hleave

theorem classed_advance (h : Entered s t) {k : Slot c} (hk : (s.advance i).valid k = true) :
    (s.advance i).Classed k := by
  rw [Lsu.advance_valid, Bool.or_eq_true, Bool.and_eq_true, Bool.not_eq_true'] at hk
  rcases hk with ⟨hv, hf⟩ | ha
  · have ha := Lsu.not_alloc_of_valid (i := i) hv
    obtain ⟨h1, h2, h3, h4, h5, h6⟩ := h.classed k hv
    constructor <;>
      simp only [Lsu.advance, Lsu.classNext_of_stay hf ha, ha, Bool.false_eq_true, if_false] <;>
      assumption
  · obtain ⟨u, hu⟩ := Lsu.memUq_of_allocEntry ha
    constructor <;>
      simp only [Lsu.advance, Lsu.classNext_of_alloc ha hu, ha, if_true, hu, Option.getD_some]

theorem classed_next (h : Entered s t) (hr : i.reset = false) {k : Slot c}
    (hk : (s.next i).valid k = true) : (s.next i).Classed k := by
  have hadv := h.classed_advance ((Lsu.next_valid hr).1 hk).1
  rcases hd : i.dsDone with _ | _
  · obtain ⟨h1, h2, h3, h4, h5, h6⟩ := hadv
    constructor <;> simpa [Lsu.next, hr, hd]
  · -- what a flush leaves are stores, and they have none of the bits it clears
    have hs := Lsu.survive_of_next hr hd hk
    have hst : (s.advance i).st k = true := by
      simp only [Lsu.survive, Bool.and_eq_true] at hs
      exact hs.1.2
    obtain ⟨hld, hser, hmg, -⟩ := hadv.of_st hst
    obtain ⟨h1, h2, h3, h4, h5, h6⟩ := hadv
    rw [hld] at h1
    rw [hser] at h3
    rw [hmg] at h5
    rw [hst] at h2
    constructor <;>
      simp only [Lsu.next, hr, hd, Lsu.flashClear, hs, Bool.false_eq_true, if_false, if_true,
        Bool.and_true] <;>
      assumption

/-- **The entries are kept.** -/
theorem next (h : Entered s t) (hr : i.reset = false) : Entered (s.next i) (t.next s i) where
  ages := h.ages_next hr
  lt k hk := by
    simp only [LsuTrace.next]
    rcases Lsu.next_cases hr hk with ⟨ha, -⟩ | ⟨hv, -, ha⟩
    · have hpop : s.popMemUq i = true := ((Bool.and_eq_true _ _).mp ha).1
      simp [ha, hpop]
    · have := h.lt k hv
      simp only [ha, Bool.false_eq_true, if_false]
      omega
  usable k hk := ((Lsu.next_valid hr).1 hk).2.1
  classed k hk := h.classed_next hr hk

end Entered

/-! ## The stores -/

/-- The stores that retired are committed in the order of their places. -/
structure Drains (s : Lsu c R) (t : LsuTrace c) : Prop where
  ret_live : ∀ k, s.ret k = true → s.stLive k = true
  cmt_ret : ∀ k, s.cmt k = true → s.ret k = true ∧ s.sdOk k = true
  ret_iff : ∀ k, s.stLive k = true → (s.ret k = true ↔ t.seat k ∈ t.retired)
  cmt_iff : ∀ k, s.stLive k = true → (s.cmt k = true ↔ t.seat k ∈ t.commits)
  /-- A store that retired is in its entry until the L1D has written it. -/
  kept : ∀ p ∈ t.retired, p ∈ t.done ∨ ∃ k, s.stLive k = true ∧ t.seat k = p
  lt : ∀ p ∈ t.retired, p < t.count
  sub : ∀ p ∈ t.commits, p ∈ t.retired
  /-- What is committed is older than every store that is not. -/
  ahead : ∀ p ∈ t.commits, ∀ k, s.stLive k = true → s.cmt k = false → p < t.seat k
  sorted : t.commits.Pairwise (· < ·)

namespace Lsu

variable {s : Lsu c R} {t : LsuTrace c} {i : LsuIn c R} {k : Slot c}

/-- A store leaves when the L1D has written it, and only then. -/
theorem stDone_of_free (h : Entered s t) (hk : s.stLive k = true) (hf : s.freeEntry i k = true) :
    i.stDone = some k := by
  obtain ⟨hv, hst⟩ := stLive_iff.1 hk
  obtain ⟨hld, hser, -, hmv⟩ := (h.classed k hv).of_st hst
  simp only [freeEntry, Bool.and_eq_true, Bool.or_eq_true, beq_iff_eq, decide_eq_true_eq] at hf
  rcases hf.2 with (⟨⟨⟨-, hs⟩, -⟩, -⟩ | ⟨⟨-, hs⟩, rfl⟩) | hdone
  · simp [strict, hst, hmv] at hs
  · simp [hld, hser] at hs
  · exact hdone

/-- What a store that may commit has, and that no older store has yet to. -/
theorem of_cmtRdy (h : s.cmtRdy i k = true) : s.stLive k = true ∧ s.ret k = true ∧
    s.sdOk k = true ∧ s.cmt k = false ∧
      ∀ j, s.matrix k j = true → s.stLive j = true → s.cmt j = true := by
  simp only [cmtRdy, Bool.and_eq_true, Bool.not_eq_true', decide_eq_true_eq] at h
  obtain ⟨⟨⟨⟨⟨hl, hr⟩, hd⟩, hc⟩, ha⟩, -⟩ := h
  refine ⟨hl, hr, hd, hc, fun j hm hj => ?_⟩
  have := ha j
  rwa [hm, hj, Bool.true_and, Bool.true_and, Bool.not_eq_false'] at this

variable [DecidableEq R]

theorem stLive_of_stRetire (h : s.stRetire i k = true) : s.stLive k = true := by
  simp only [stRetire, Bool.and_eq_true] at h
  exact h.1.1.1

/-- A store of the next state is the new one or one that stays. -/
theorem next_live (hr : i.reset = false) (hk : (s.next i).stLive k = true) :
    (s.allocEntry i k = true ∧ s.valid k = false ∧ i.dsDone = false) ∨
      (s.stLive k = true ∧ s.freeEntry i k = false ∧ s.allocEntry i k = false) := by
  obtain ⟨hv, hst⟩ := stLive_iff.1 hk
  refine (next_cases hr hv).imp_right fun ⟨hv', hf, ha⟩ => ⟨?_, hf, ha⟩
  rw [(next_flags hr hv).1] at hst
  exact stLive_iff.2 ⟨hv', by rwa [advance_st hf ha] at hst⟩

/-- A retired store stays through a cycle and a flush. -/
theorem stays_of_ret (h : Entered s t) (hr : i.reset = false) (hk : s.stLive k = true)
    (hf : s.freeEntry i k = false) (hret : (s.advance i).ret k = true) :
    (s.next i).stLive k = true := by
  obtain ⟨hv, hst⟩ := stLive_iff.1 hk
  have hst' : (s.advance i).st k = true := by
    rwa [advance_st hf (not_alloc_of_valid hv)]
  have hv' : (s.next i).valid k = true := by
    rw [next_valid hr, advance_valid, hv, hf]
    exact ⟨rfl, h.usable k hv, fun _ => ⟨hst', hret⟩⟩
  exact stLive_iff.2 ⟨hv', by rw [(next_flags hr hv').1, hst']⟩

theorem advance_ret : (s.advance i).ret k = true ↔
    s.freeEntry i k = false ∧ (s.ret k = true ∨ s.stRetire i k = true) := by
  simp only [advance, Bool.and_eq_true, Bool.or_eq_true, Bool.not_eq_true']

theorem advance_cmt : (s.advance i).cmt k = true ↔
    s.freeEntry i k = false ∧ (s.cmt k = true ∨ (s.issueCmt i = true ∧ k = s.cmtPtr i)) := by
  simp only [advance]
  rcases hc : s.issueCmt i with _ | _
  · cases s.freeEntry i k <;> simp
  · rw [(selectPtr_of_issueCmt hc).1]
    by_cases hk : k = s.cmtPtr i <;> cases s.freeEntry i k <;> simp [hk]

theorem advance_ret_of_next (hr : i.reset = false) (hk : (s.next i).ret k = true) :
    (s.advance i).ret k = true := by
  simp only [next, hr, Bool.false_eq_true, if_false] at hk
  rcases hd : i.dsDone with _ | _ <;> simp only [hd, if_true, Bool.false_eq_true, if_false] at hk
  · exact hk
  · exact ((Bool.and_eq_true _ _).mp hk).1

theorem advance_cmt_of_next (hr : i.reset = false) (hk : (s.next i).cmt k = true) :
    (s.advance i).cmt k = true := by
  simp only [next, hr, Bool.false_eq_true, if_false] at hk
  rcases hd : i.dsDone with _ | _ <;> simp only [hd, if_true, Bool.false_eq_true, if_false] at hk
  · exact hk
  · exact ((Bool.and_eq_true _ _).mp hk).1

end Lsu

namespace Drains

variable {s : Lsu c R} {t : LsuTrace c} {i : LsuIn c R}

theorem cleared (f : Lsu c R) : Drains f.cleared LsuTrace.start where
  ret_live _ hk := absurd hk Bool.false_ne_true
  cmt_ret _ hk := absurd hk Bool.false_ne_true
  ret_iff _ hk := absurd hk Bool.false_ne_true
  cmt_iff _ hk := absurd hk Bool.false_ne_true
  kept _ hp := absurd hp List.not_mem_nil
  lt _ hp := absurd hp List.not_mem_nil
  sub _ hp := absurd hp List.not_mem_nil
  ahead _ hp := absurd hp List.not_mem_nil
  sorted := List.Pairwise.nil

/-- The stores of two entries have two places. -/
theorem live_inj (e : Entered s t) {j k : Slot c} (hj : s.stLive j = true) (hk : s.stLive k = true)
    (hjk : t.seat j = t.seat k) : j = k :=
  e.ages.inj j k (Lsu.stLive_iff.1 hj).1 (Lsu.stLive_iff.1 hk).1 hjk

variable [DecidableEq R]

theorem mem_retired {p : ℕ} : p ∈ (t.next s i).retired ↔
    p ∈ t.retired ∨ ∃ j, s.stRetire i j = true ∧ t.seat j = p := by
  simp [LsuTrace.next]

theorem mem_commits {p : ℕ} : p ∈ (t.next s i).commits ↔
    p ∈ t.commits ∨ (s.issueCmt i = true ∧ p = t.seat (s.cmtPtr i)) := by
  simp only [LsuTrace.next, List.mem_append]
  rcases hc : s.issueCmt i with _ | _
  · simp
  · simp [(Lsu.selectPtr_of_issueCmt hc).1]

theorem seat_of_stay {k : Slot c} (ha : s.allocEntry i k = false) :
    (t.next s i).seat k = t.seat k := by
  simp [LsuTrace.next, ha]

theorem seat_of_alloc {k : Slot c} (ha : s.allocEntry i k = true) :
    (t.next s i).seat k = t.count := by
  simp [LsuTrace.next, ha]

variable (e : Entered s t) (h : Drains s t)

include e h in
theorem retired_lt {p : ℕ} (hp : p ∈ (t.next s i).retired) : p < t.count := by
  rcases mem_retired.1 hp with hp | ⟨j, hj, rfl⟩
  · exact h.lt p hp
  · exact e.lt j (Lsu.stLive_iff.1 (Lsu.stLive_of_stRetire hj)).1

include e h in
theorem commits_lt {p : ℕ} (hp : p ∈ (t.next s i).commits) : p < t.count := by
  rcases mem_commits.1 hp with hp | ⟨hc, rfl⟩
  · exact h.lt p (h.sub p hp)
  · exact e.lt _ (Lsu.stLive_iff.1 (Lsu.of_cmtRdy (Lsu.selectPtr_of_issueCmt hc).2).1).1

include h in
/-- A new uop has no flag yet. -/
theorem not_ret_of_free {k : Slot c} (hk : s.valid k = false) :
    (s.advance i).ret k = false ∧ (s.advance i).cmt k = false := by
  have hl : s.stLive k = false := by rw [Lsu.stLive, hk, Bool.false_and]
  have hret : s.ret k = false := by
    refine eq_false_of_ne_true fun hr => ?_
    rw [h.ret_live k hr] at hl
    exact Bool.false_ne_true hl.symm
  constructor
  · refine eq_false_of_ne_true fun hr => ?_
    obtain ⟨-, hr | hr⟩ := Lsu.advance_ret.1 hr
    · exact Bool.false_ne_true (hret.symm.trans hr)
    · rw [Lsu.stLive_of_stRetire hr] at hl
      exact Bool.false_ne_true hl.symm
  · refine eq_false_of_ne_true fun hc => ?_
    obtain ⟨-, hc | ⟨hi, rfl⟩⟩ := Lsu.advance_cmt.1 hc
    · exact Bool.false_ne_true (hret.symm.trans (h.cmt_ret k hc).1)
    · rw [(Lsu.of_cmtRdy (Lsu.selectPtr_of_issueCmt hi).2).1] at hl
      exact Bool.false_ne_true hl.symm

include e h in
theorem ret_iff_next (hr : i.reset = false) {k : Slot c} (hk : (s.next i).stLive k = true) :
    (s.next i).ret k = true ↔ (t.next s i).seat k ∈ (t.next s i).retired := by
  obtain ⟨-, -, -, -, hret, -⟩ := Lsu.next_flags hr (Lsu.stLive_iff.1 hk).1
  rw [hret]
  rcases Lsu.next_live hr hk with ⟨ha, hv, -⟩ | ⟨hl, hf, ha⟩
  · rw [(h.not_ret_of_free hv).1, seat_of_alloc ha]
    exact iff_of_false Bool.false_ne_true fun hp => lt_irrefl _ (h.retired_lt e hp)
  · rw [Lsu.advance_ret, seat_of_stay ha, mem_retired, h.ret_iff k hl]
    constructor
    · rintro ⟨-, hret⟩
      exact hret.imp_right fun hret => ⟨k, hret, rfl⟩
    · rintro hp
      refine ⟨hf, hp.imp_right ?_⟩
      rintro ⟨j, hj, hjk⟩
      rwa [live_inj e (Lsu.stLive_of_stRetire hj) hl hjk] at hj

include e h in
theorem cmt_iff_next (hr : i.reset = false) {k : Slot c} (hk : (s.next i).stLive k = true) :
    (s.next i).cmt k = true ↔ (t.next s i).seat k ∈ (t.next s i).commits := by
  obtain ⟨-, -, -, -, -, hcmt⟩ := Lsu.next_flags hr (Lsu.stLive_iff.1 hk).1
  rw [hcmt]
  rcases Lsu.next_live hr hk with ⟨ha, hv, -⟩ | ⟨hl, hf, ha⟩
  · rw [(h.not_ret_of_free hv).2, seat_of_alloc ha]
    exact iff_of_false Bool.false_ne_true fun hp => lt_irrefl _ (h.commits_lt e hp)
  · rw [Lsu.advance_cmt, seat_of_stay ha, mem_commits, h.cmt_iff k hl]
    constructor
    · rintro ⟨-, hc | ⟨hi, rfl⟩⟩
      · exact .inl hc
      · exact .inr ⟨hi, rfl⟩
    · rintro hp
      refine ⟨hf, hp.imp_right ?_⟩
      rintro ⟨hi, hp⟩
      exact ⟨hi, live_inj e hl (Lsu.of_cmtRdy (Lsu.selectPtr_of_issueCmt hi).2).1 hp⟩

include e h in
/-- No retired store is lost, in a flush or otherwise. -/
theorem kept_next (hr : i.reset = false) {p : ℕ} (hp : p ∈ (t.next s i).retired) :
    p ∈ (t.next s i).done ∨ ∃ k, (s.next i).stLive k = true ∧ (t.next s i).seat k = p := by
  have hdone : (t.next s i).done = t.done ++ (i.stDone.toList.filter s.stLive).map t.seat := rfl
  rw [hdone, List.mem_append]
  have hsrc : p ∈ t.done ∨
      ∃ k, s.stLive k = true ∧ t.seat k = p ∧ (s.ret k = true ∨ s.stRetire i k = true) := by
    rcases mem_retired.1 hp with hp | ⟨k, hk, rfl⟩
    · rcases h.kept p hp with hd | ⟨k, hk, rfl⟩
      · exact .inl hd
      · exact .inr ⟨k, hk, rfl, .inl ((h.ret_iff k hk).2 hp)⟩
    · exact .inr ⟨k, Lsu.stLive_of_stRetire hk, rfl, .inr hk⟩
  rcases hsrc with hd | ⟨k, hk, rfl, hret⟩
  · exact .inl (.inl hd)
  · rcases hf : s.freeEntry i k with _ | _
    · refine .inr ⟨k, Lsu.stays_of_ret e hr hk hf (Lsu.advance_ret.2 ⟨hf, hret⟩), ?_⟩
      exact seat_of_stay (Lsu.not_alloc_of_valid (Lsu.stLive_iff.1 hk).1)
    · -- the L1D has written it in this cycle
      refine .inl (.inr ?_)
      rw [Lsu.stDone_of_free e hk hf]
      simp [hk]

include e h in
theorem ahead_next (hr : i.reset = false) {p : ℕ} (hp : p ∈ (t.next s i).commits) {k : Slot c}
    (hk : (s.next i).stLive k = true) (hc : (s.next i).cmt k = false) :
    p < (t.next s i).seat k := by
  obtain ⟨-, -, -, -, -, hcmt⟩ := Lsu.next_flags hr (Lsu.stLive_iff.1 hk).1
  rw [hcmt] at hc
  rcases Lsu.next_live hr hk with ⟨ha, -, -⟩ | ⟨hl, hf, ha⟩
  · rw [seat_of_alloc ha]
    exact h.commits_lt e hp
  · rw [seat_of_stay ha]
    have hnc : s.cmt k = false ∧ ¬ (s.issueCmt i = true ∧ k = s.cmtPtr i) := by
      rw [← Bool.not_eq_true, Lsu.advance_cmt, not_and, not_or] at hc
      exact ⟨eq_false_of_ne_true (hc hf).1, (hc hf).2⟩
    rcases mem_commits.1 hp with hp | ⟨hi, rfl⟩
    · exact h.ahead p hp k hl hnc.1
    · -- the store that commits now is older than those that wait
      obtain ⟨hl', -, -, -, hold⟩ := Lsu.of_cmtRdy (Lsu.selectPtr_of_issueCmt hi).2
      refine lt_of_le_of_ne (not_lt.1 fun hlt => ?_) fun he => hnc.2 ⟨hi, ?_⟩
      · have hm := (e.ages.row _ k (Lsu.stLive_iff.1 hl').1 (Lsu.stLive_iff.1 hl).1).2 hlt
        exact Bool.false_ne_true (hnc.1.symm.trans (hold k hm hl))
      · exact live_inj e hl hl' he.symm

include e h in
/-- **The stores are kept.** -/
theorem next (hr : i.reset = false) : Drains (s.next i) (t.next s i) where
  ret_live k hk := by
    obtain ⟨hf, hret⟩ := Lsu.advance_ret.1 (Lsu.advance_ret_of_next hr hk)
    have hl : s.stLive k = true := hret.elim (h.ret_live k) Lsu.stLive_of_stRetire
    exact Lsu.stays_of_ret e hr hl hf (Lsu.advance_ret.2 ⟨hf, hret⟩)
  cmt_ret k hk := by
    obtain ⟨hf, hc⟩ := Lsu.advance_cmt.1 (Lsu.advance_cmt_of_next hr hk)
    have hold : s.ret k = true ∧ s.sdOk k = true := by
      rcases hc with hc | ⟨hi, rfl⟩
      · exact h.cmt_ret k hc
      · have hrdy := Lsu.of_cmtRdy (Lsu.selectPtr_of_issueCmt hi).2
        exact ⟨hrdy.2.1, hrdy.2.2.1⟩
    have hret := Lsu.advance_ret.2 ⟨hf, .inl hold.1⟩
    have hl := Lsu.stays_of_ret e hr (h.ret_live k hold.1) hf hret
    obtain ⟨-, -, -, hsd, hret', -⟩ := Lsu.next_flags hr (Lsu.stLive_iff.1 hl).1
    rw [hsd, hret']
    exact ⟨hret, by simp [Lsu.advance, hf, hold.2]⟩
  ret_iff k hk := h.ret_iff_next e hr hk
  cmt_iff k hk := h.cmt_iff_next e hr hk
  kept p hp := h.kept_next e hr hp
  lt p hp := lt_of_lt_of_le (h.retired_lt e hp) (Nat.le_add_right _ _)
  sub p hp := by
    rw [mem_retired]
    rcases mem_commits.1 hp with hp | ⟨hi, rfl⟩
    · exact .inl (h.sub p hp)
    · obtain ⟨hl, hret, -⟩ := Lsu.of_cmtRdy (Lsu.selectPtr_of_issueCmt hi).2
      exact .inl ((h.ret_iff _ hl).1 hret)
  ahead p hp k hk hc := h.ahead_next e hr hp hk hc
  sorted := by
    show (t.commits ++ _).Pairwise (· < ·)
    refine List.pairwise_append.2 ⟨h.sorted, ?_, fun p hp q hq => ?_⟩
    · split_ifs
      · exact List.pairwise_singleton _ _
      · exact List.Pairwise.nil
    · rcases hi : s.issueCmt i with _ | _
      · simp [hi] at hq
      · obtain ⟨hsel, hrdy⟩ := Lsu.selectPtr_of_issueCmt hi
        obtain ⟨hl, -, -, hc, -⟩ := Lsu.of_cmtRdy hrdy
        rw [if_pos hi, List.mem_singleton, hsel] at hq
        rw [hq]
        exact h.ahead p hp _ hl hc

end Drains

/-! ## The laws -/

/-- What the LSU keeps of the program order. -/
structure LsuOrder (s : Lsu c R) (t : LsuTrace c) : Prop where
  /-- The matrix is the order of the allocations. -/
  order : ∀ j k, s.valid j = true → s.valid k = true →
    (s.matrix k j = true ↔ t.seat j < t.seat k)
  distinct : ∀ j k, s.valid j = true → s.valid k = true → t.seat j = t.seat k → j = k
  /-- An entry issues whenever one may, and it is the oldest that may. -/
  picks : ∀ i : LsuIn c R, (s.issueAddr i = true ↔ ∃ k, s.elig i k = true) ∧
    (s.issueAddr i = true → s.elig i (s.selectPtr i) = true ∧
      ∀ j, s.elig i j = true → t.seat (s.selectPtr i) ≤ t.seat j)
  /-- It passes no strict op and no store that has not sent its address, unless it is a move. -/
  passes : ∀ (i : LsuIn c R) k, s.elig i k = true → s.mv k = false → ∀ j, s.valid j = true →
    t.seat j < t.seat k → s.strict j = false ∧ (s.st j = true → s.issued j = true)
  /-- A strict op and a conditional store issue when they are the oldest. -/
  alone : ∀ (i : LsuIn c R) k, s.elig i k = true → s.strict k = true ∨ s.old1 k = true →
    ∀ j, s.valid j = true → t.seat k ≤ t.seat j
  /-- The oldest waits for no other. -/
  oldest : ∀ (i : LsuIn c R) k, s.entryRdy i k = true →
    (∀ j, s.valid j = true → t.seat k ≤ t.seat j) → s.elig i k = true
  /-- The L1D is shown every set of live stores in an order of age. -/
  aged : ∀ m : Slot c → Bool, (∀ j, m j = true → s.stLive j = true) →
    ∃ l, L1d.Aged s.sbView m l

/-- What the LSU keeps of the stores. -/
structure StoreOrder (s : Lsu c R) (t : LsuTrace c) : Prop where
  /-- They are committed in program order, each once, -/
  sorted : t.commits.Pairwise (· < ·)
  /-- after they retired; -/
  retired : ∀ p ∈ t.commits, p ∈ t.retired
  /-- and none that retired is lost: it is in its entry until the L1D has written it. -/
  kept : ∀ p ∈ t.retired, p ∈ t.done ∨
    ∃ k, s.stLive k = true ∧ t.seat k = p ∧ s.ret k = true ∧ (s.cmt k = true ↔ p ∈ t.commits)
  /-- Nor is one passed. -/
  passed : ∀ p ∈ t.commits, ∀ q ∈ t.retired, q < p → q ∈ t.commits ∨ q ∈ t.done
  /-- The oldest that is not committed goes when it has retired and has its data, in a cycle
  that issues nothing else. -/
  turn : ∀ (i : LsuIn c R) k, s.stLive k = true → s.ret k = true → s.sdOk k = true →
    s.cmt k = false → (∀ j, s.stLive j = true → s.cmt j = false → t.seat k ≤ t.seat j) →
    i.memQFull = false → s.issueAddr i = false → s.issueCmt i = true ∧ s.selectPtr i = k

variable {s : Lsu c R} {t : LsuTrace c}

namespace LsuOrder

theorem picks_of (e : Entered s t) (i : LsuIn c R) :
    (s.issueAddr i = true ↔ ∃ k, s.elig i k = true) ∧
      (s.issueAddr i = true → s.elig i (s.selectPtr i) = true ∧
        ∀ j, s.elig i j = true → t.seat (s.selectPtr i) ≤ t.seat j) := by
  have hv (k : Slot c) (hk : s.elig i k = true) : s.valid k = true := Lsu.valid_of_elig hk
  refine ⟨Lsu.issueAddr_iff.trans ⟨fun ⟨k, hk⟩ => ?_, fun hex => ?_⟩, fun hi => ?_⟩
  · exact ⟨k, ((e.ages.oldestReady_iff hv k).1 hk).1⟩
  · exact (e.ages.existsUnique_oldestReady hv hex).exists
  · rw [Lsu.selectPtr_of_issueAddr hi]
    exact (e.ages.oldestReady_iff hv _).1 (lowest_set (Lsu.issueAddr_iff.1 hi))

/-- An eligible entry that is no move has its row of the matrix against the pending entries, and
a strict one or a conditional store against all. -/
theorem row_of_elig {i : LsuIn c R} {k : Slot c} (h : s.elig i k = true) (hm : s.mv k = false) :
    (∀ j, s.matrix k j = true → s.pending j = false) ∧
      (s.strict k = true ∨ s.old1 k = true → ∀ j, s.matrix k j = false) := by
  simp only [Lsu.elig, hm, Bool.false_eq_true, if_false, Bool.and_eq_true, Bool.or_eq_true] at h
  obtain ⟨-, h⟩ := h
  split_ifs at h with hs
  · have hnone := of_decide_eq_true h
    exact ⟨fun j hj => absurd (hj.symm.trans (hnone j)) (by decide), fun _ => hnone⟩
  · refine ⟨fun j hj => ?_, fun hs' => absurd hs' hs⟩
    have := of_decide_eq_true h j
    rwa [hj, Bool.true_and] at this

theorem of_entered (e : Entered s t) : LsuOrder s t where
  order j k hj hk := e.ages.row k j hk hj
  distinct := e.ages.inj
  picks := picks_of e
  passes i k hk hm j hj hlt := by
    have hp := (row_of_elig hk hm).1 j ((e.ages.row k j (Lsu.valid_of_elig hk) hj).2 hlt)
    simp only [Lsu.pending, Bool.or_eq_false_iff, Bool.and_eq_false_iff, Lsu.stLive, hj,
      Bool.true_and, Bool.not_eq_false'] at hp
    refine ⟨hp.1, fun hst => ?_⟩
    rcases hp.2 with hn | hi
    · exact absurd (hst.symm.trans hn) (by decide)
    · exact hi
  alone i k hk hs j hj := by
    have hv := Lsu.valid_of_elig hk
    have hm : s.mv k = false := by
      rcases hs with hs | ho
      · simp only [Lsu.strict, Bool.and_eq_true, Bool.not_eq_true'] at hs
        exact hs.2
      · have hcl := e.classed k hv
        rw [hcl.old1] at ho
        rw [hcl.mv]
        generalize (s.uops k).op = op at ho ⊢
        cases op <;> first | rfl | exact absurd ho (by decide)
    refine not_lt.1 fun hlt => ?_
    have := (row_of_elig hk hm).2 hs j
    rw [(e.ages.row k j hv hj).2 hlt] at this
    exact absurd this (by decide)
  oldest i k hk hold := by
    have hv : s.valid k = true := by
      simp only [Lsu.entryRdy, Bool.and_eq_true] at hk
      exact hk.1.1.1.1.1.1
    have hrow (j : Slot c) : s.matrix k j = false := by
      refine eq_false_of_ne_true fun hj => ?_
      have hvj := e.ages.seen k j hv hj
      exact not_lt.2 (hold j hvj) ((e.ages.row k j hv hvj).1 hj)
    simp [Lsu.elig, hk, hrow]
  aged m hm := by
    obtain ⟨l, hmem, hl⟩ := e.ages.exists_list fun j hj => (Lsu.stLive_iff.1 (hm j hj)).1
    exact ⟨l, hmem, hl⟩

end LsuOrder

theorem StoreOrder.of_drains (e : Entered s t) (h : Drains s t) : StoreOrder s t where
  sorted := h.sorted
  retired := h.sub
  kept p hp := by
    refine (h.kept p hp).imp_right ?_
    rintro ⟨k, hk, rfl⟩
    exact ⟨k, hk, rfl, (h.ret_iff k hk).2 hp, h.cmt_iff k hk⟩
  passed p hp q hq hlt := by
    rcases h.kept q hq with hd | ⟨k, hk, rfl⟩
    · exact .inr hd
    · rcases hc : s.cmt k with _ | _
      · exact absurd (h.ahead p hp k hk hc) (lt_asymm hlt)
      · exact .inl ((h.cmt_iff k hk).1 hc)
  turn i k hk hret hsd hc hold hq hi := by
    have hrdy : s.cmtRdy i k = true := by
      simp only [Lsu.cmtRdy, hk, hret, hsd, hc, hq, Bool.not_false, Bool.and_self, Bool.true_and,
        Bool.and_true, decide_eq_true_eq]
      intro j
      rcases hm : s.matrix k j with _ | _
      · rfl
      rcases hj : s.stLive j with _ | _
      · rfl
      rcases hcj : s.cmt j with _ | _
      · have hlt := (e.ages.row k j (Lsu.stLive_iff.1 hk).1 (Lsu.stLive_iff.1 hj).1).1 hm
        exact absurd hlt (not_lt.2 (hold j hj hcj))
      · rfl
    have hcmt : s.issueCmt i = true := by
      rw [Lsu.issueCmt, hi, Bool.not_false, Bool.and_true, decide_eq_true_eq]
      exact ⟨k, hrdy⟩
    refine ⟨hcmt, ?_⟩
    -- the one that is found is the oldest too
    obtain ⟨hsel, hptr⟩ := Lsu.selectPtr_of_issueCmt hcmt
    obtain ⟨hl, -, -, hcp, hfirst⟩ := Lsu.of_cmtRdy hptr
    rw [hsel]
    refine Drains.live_inj e hl hk (le_antisymm (not_lt.1 fun hlt => ?_) (hold _ hl hcp))
    have hm := (e.ages.row _ k (Lsu.stLive_iff.1 hl).1 (Lsu.stLive_iff.1 hk).1).2 hlt
    exact Bool.false_ne_true (hc.symm.trans (hfirst k hm hk))

/-! ### Every run -/

section Runs

variable [DecidableEq R]

/-- What a cycle keeps, a reset included. -/
def Kept (x : Lsu c R × LsuTrace c) : Prop := Entered x.1 x.2 ∧ Drains x.1 x.2

theorem Kept.step {x : Lsu c R × LsuTrace c} (h : Kept x) (i : LsuIn c R) :
    Kept (lsuStep x i) := by
  rcases hr : i.reset with _ | _
  · simp only [Kept, lsuStep, hr, Bool.false_eq_true, if_false]
    exact ⟨h.1.next hr, h.2.next h.1 hr⟩
  · simp only [Kept, lsuStep, hr, if_true, Lsu.next]
    exact ⟨Entered.cleared _, Drains.cleared _⟩

theorem Kept.reset (x : Lsu c R × LsuTrace c) (i : LsuIn c R) :
    Kept (lsuStep x { i with reset := true }) :=
  ⟨Entered.cleared _, Drains.cleared _⟩

/-- **The LSU keeps the order of the memory operations.**  After a reset the laws hold in every
cycle of every run, whatever is allocated, answered, retired and flushed. -/
theorem lsu_order (x : Lsu c R × LsuTrace c) (i : LsuIn c R) (is : List (LsuIn c R)) :
    let y := Hw.run lsuStep (lsuStep x { i with reset := true }) is
    LsuOrder y.1 y.2 := by
  intro y
  have hy : Kept y := Hw.run_invariant (fun _ i h => h.step i) (Kept.reset x i) is
  exact LsuOrder.of_entered hy.1

/-- **The stores are committed in program order, each once, and none that retired is lost.** -/
theorem store_order (x : Lsu c R × LsuTrace c) (i : LsuIn c R) (is : List (LsuIn c R)) :
    let y := Hw.run lsuStep (lsuStep x { i with reset := true }) is
    StoreOrder y.1 y.2 := by
  intro y
  have hy : Kept y := Hw.run_invariant (fun _ i h => h.step i) (Kept.reset x i) is
  exact StoreOrder.of_drains hy.1 hy.2

end Runs

end Issue

end R9999
