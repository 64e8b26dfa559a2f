import R9999.Hierarchy.Coherence

/-!
# Completion

What the hierarchy promises when an operation is done: an uncached access, a CACHE or page
operation, a snoop, a flush of all caches.  In each case the copies that the operation is about
are gone, and DRAM has the line the processor sees.
-/

namespace R9999

namespace L2View

open L2

variable {g : Geometry} {v v' : L2View} {i : Input} {x : LineAddr}

/-- The line is valid in the L2. -/
def Has (g : Geometry) (v : L2View) (x : LineAddr) : Prop :=
  (v.arr (g.l2Idx x)).valid = true ∧ (v.arr (g.l2Idx x)).tag = g.l2Tag x

theorem not_has_saveaddr (hl : Lookup g v.regs) (hh : hit v.regs v.cur = false) :
    ¬ Has g v v.regs.saveaddr := by
  rintro ⟨h1, h2⟩
  rw [← hl.1] at h1 h2
  have h1' : v.cur.valid = true := h1
  have h2' : v.regs.tag = v.cur.tag := hl.2.trans h2.symm
  simp [hit, h1', h2'] at hh

/-- A lookup that misses, or whose line is cleared. -/
theorem not_has_of_clear {r : Regs} (hl : Lookup g v.regs) (hr : r.saveaddr = v.regs.saveaddr) :
    ¬ Has g ⟨r, if hit v.regs v.cur then v.setCur (clearEntry v.cur) else v.arr⟩ r.saveaddr := by
  rw [hr]
  split
  · rintro ⟨h1, -⟩
    rw [← hl.1] at h1
    simp [setCur, clearEntry] at h1
  · next hh => exact not_has_saveaddr hl (by simpa using hh)

/-- A request other than a cacheable fill or writeback has no line in the L2 when it is
answered, and neither has a snoop. -/
theorem gone_step (h : Step g v i v') (hc : Ctl g v)
    (hr : v'.regs.snoopDone = true ∨ v'.regs.rspValid = true ∧ v'.regs.state = .idle ∧
      ((v.regs.state ≠ .idle → Tagged v.regs false) ∨ fillOp v'.regs.opcode = false)) :
    ¬ Has g v' v'.regs.saveaddr := by
  have hm := hc.mode
  cases h
  case invlDone hs _ _ _ _ | pgdrop hs _ _ _ | snoopDone hs _ _ _ _ =>
    rw [Mode, hs] at hm
    exact not_has_of_clear hm.1 rfl
  case hitLw hs hu _ ho _ =>
    rcases hr with hr | ⟨-, -, hr | hr⟩
    · cases hr
    · have h' := hr (by simp [hs])
      simp only [Tagged, hs, hu] at h'
      cases h'
    · have hr' : fillOp v.regs.opcode = false := hr
      rw [ho] at hr'
      cases hr'
  case uncacheStoreDone hs _ =>
    rw [Mode, hs] at hm
    exact not_has_saveaddr (v := v) hm.1 hm.2.2.2.2.1
  case uncacheLoadDone hs _ =>
    rw [Mode, hs] at hm
    exact not_has_saveaddr (v := v) hm.1 hm.2.2.2.2.1
  case turnaroundInvl hs _ | turnaroundSnoop hs _ =>
    rw [Mode, hs] at hm
    exact not_has_saveaddr (v := v) hm.1 hm.2.2.1
  case uncachedHit | uncachedMiss | turnaroundIssue => rcases hr with hr | ⟨hr, -⟩ <;> cases hr
  case idleReq => rcases hr with hr | ⟨-, hr, -⟩ <;> cases hr
  all_goals
    rcases hr with hr | ⟨hr, -⟩
    · simp_all
    · simp_all

/-- The indices that a walk over the array has passed are empty, and all of them when it is
done. -/
structure Swept (g : Geometry) (v : L2View) : Prop where
  init : v.regs.state = .init → ∀ j, 0 < j → j ≤ v.regs.idx → (v.arr j).valid = false
  wait : v.regs.state = .flushWait ∨ v.regs.state = .flushTriage →
    ∀ j < v.regs.idx, (v.arr j).valid = false
  store : v.regs.state = .flushStore → ∀ j ≤ v.regs.idx, (v.arr j).valid = false
  done : v.regs.flushComplete = true →
    v.regs.state = .idle ∧ ∀ j < g.l2Lines, (v.arr j).valid = false

theorem Swept.of_other (h1 : v.regs.state ≠ .init) (h2 : walks v.regs.state = false)
    (h3 : v.regs.flushComplete = false) : Swept g v where
  init h := absurd h h1
  wait h := by rcases h with h | h <;> simp [h, walks] at h2
  store h := by simp [h, walks] at h2
  done h := absurd h (by simp [h3])

theorem Swept.of_wait (hs : v.regs.state = .flushWait ∨ v.regs.state = .flushTriage)
    (hf : v.regs.flushComplete = false) (h : ∀ j < v.regs.idx, (v.arr j).valid = false) :
    Swept g v where
  init h := by rcases hs with hs | hs <;> rw [hs] at h <;> cases h
  wait _ := h
  store h := by rcases hs with hs | hs <;> rw [hs] at h <;> cases h
  done h := absurd h (by simp [hf])

theorem Swept.of_done (hs : v.regs.state = .idle) (h : ∀ j < g.l2Lines, (v.arr j).valid = false) :
    Swept g v where
  init h := by rw [hs] at h; cases h
  wait h := by rcases h with h | h <;> rw [hs] at h <;> cases h
  store h := by rw [hs] at h; cases h
  done _ := ⟨hs, h⟩

/-- A walk that is not skipped clears one index after the other. -/
theorem swept_step (h : Step g v i v') (hc : Ctl g v) (hk : (tick v.regs i).flushSkip = false)
    (hw : Swept g v) : Swept g v' := by
  have hidx := hc.idx_lt
  have hclear : ∀ {j}, j ≤ v.regs.idx → (∀ k < v.regs.idx, (v.arr k).valid = false) →
      (v.setCur (clearEntry v.cur) j).valid = false := by
    intro j hj hlt
    by_cases hx : j = v.regs.idx
    · rw [hx, setCur, Function.update_self]
      rfl
    · rw [setCur, Function.update_of_ne hx]
      exact hlt j (Nat.lt_of_le_of_ne hj hx)
  have hlast : ∀ {k : Nat}, v.regs.idx = g.l2Lines - 1 → k < g.l2Lines → k ≤ v.regs.idx := by
    intro k hx hk
    omega
  have hsucc : v.regs.idx ≠ g.l2Lines - 1 → g.l2Succ v.regs.idx = v.regs.idx + 1 := by
    intro hx
    exact Nat.mod_eq_of_lt (by omega)
  cases h
  case init hs hx =>
    constructor
    · intro _ j h0 hj
      have hj' : j ≤ g.l2Succ v.regs.idx := hj
      change (Function.update v.arr (g.l2Succ v.regs.idx) _ j).valid = false
      rw [hsucc hx] at hj' ⊢
      by_cases hjx : j = v.regs.idx + 1
      · rw [hjx, Function.update_self]
        rfl
      · rw [Function.update_of_ne hjx]
        exact hw.init hs j h0 (by omega)
    · intro h
      simp [hs] at h
    · intro h
      simp [hs] at h
    · intro h
      simp at h
  case initLast hs hx =>
    refine .of_done rfl fun j hj => ?_
    have hz : g.l2Succ v.regs.idx = 0 := by
      rw [Geometry.l2Succ, show v.regs.idx + 1 = g.l2Lines by omega, Nat.mod_self]
    change (Function.update v.arr (g.l2Succ v.regs.idx) _ j).valid = false
    rw [hz]
    by_cases hj' : j = 0
    · rw [hj', Function.update_self]
      rfl
    · rw [Function.update_of_ne hj']
      exact hw.init hs j (Nat.pos_of_ne_zero hj') (hlast hx hj)
  case idleFlushSkip hk' => exact absurd hk' (by simp [hk])
  case idleFlush => exact .of_wait (.inl rfl) rfl fun j hj => absurd hj (Nat.not_lt_zero j)
  case flushWait hs => exact .of_wait (.inr rfl) rfl (hw.wait (.inl hs))
  case flushTriageWb hs _ =>
    constructor
    · intro h
      cases h
    · intro h
      rcases h with h | h <;> cases h
    · exact fun _ j hj => hclear hj (hw.wait (.inr hs))
    · intro h
      cases h
  case flushTriageNext hs _ hx =>
    refine .of_wait (.inl rfl) rfl fun j hj => ?_
    have hj' : j < g.l2Succ v.regs.idx := hj
    rw [hsucc hx] at hj'
    exact hclear (Nat.le_of_lt_succ hj') (hw.wait (.inr hs))
  case flushTriageLast hs _ hx =>
    exact .of_done rfl fun j hj => hclear (hlast hx hj) (hw.wait (.inr hs))
  case flushStoreNext hs _ hx =>
    refine .of_wait (.inl rfl) rfl fun j hj => ?_
    have hj' : j < g.l2Succ v.regs.idx := hj
    rw [hsucc hx] at hj'
    exact hw.store hs j (Nat.le_of_lt_succ hj')
  case flushStoreLast hs _ hx => exact .of_done rfl fun j hj => hw.store hs j (hlast hx hj)
  case memWait hm _ =>
    constructor
    · intro h
      have h' : v.regs.state = .init := h
      simp [h', memWaiting] at hm
    · intro h
      have h' : v.regs.state = .flushWait ∨ v.regs.state = .flushTriage := h
      rcases h' with h' | h' <;> simp [h', memWaiting] at hm
    · exact fun h => hw.store h
    · intro h
      cases h
  case uncachedHit | uncachedMiss | turnaroundIssue =>
    rcases uncachedState_cases v.regs with hn | hn <;>
      exact .of_other (by simp [hn]) (by simp [hn, walks]) rfl
  case idle hs _ _ _ | probeWait hs _ _ | probeAcked hs _ _ _ | hitOther hs _ _ _ _ _ _ =>
    exact .of_other (by simp [hs]) (by simp [hs, walks]) rfl
  all_goals exact .of_other (by simp) (by simp [walks]) rfl

end L2View

namespace L1d

variable {g : Geometry} {s : L1d} {i : Input} {p : Proto} {a : Nat → L1dEntry}

/-- The request leaves no copy of its line in the caches. -/
def MemReq.Leaves (q : MemReq) : Prop := q.cacheable = false ∨ L2View.fillOp q.opcode = false

/-- A flush operation is done when the L1D has nothing outstanding. -/
theorem done_step (h : Step g s i p a) (hf : p.flushComplete = true) : p.out = false := by
  have hact : ∀ {q : Proto}, q.state = .active → q.out = false :=
    fun hs => Proto.out_free hs rfl
  cases h with
  | initCacheLast | flushClClean | flushClDone | flushPgLast | flushCleanLast | flushLast =>
    exact hact rfl
  | run _ _ f _ b | store _ _ _ _ _ _ f _ b =>
    cases f <;> cases b <;> cases hf
  | wait _ _ b => cases b <;> cases hf
  | _ => cases hf

end L1d

namespace Hier

open L2View (accepts discards fillOp Tagged)

variable {g : Geometry} {s : Hier} {i : Stim}

/-- The caches come out of reset, or the L1D has done its part of a whole-cache flush. -/
def Drained (s : Hier) : Prop :=
  s.core.state = .flushForHalt ∨
    s.core.state = .wholeFlush ∧
      (s.l1d.regs.flushComplete = true ∨ s.core.l1dFlushComplete = true)

theorem Phase.drained_rests (h : Phase s) (hd : Drained s) : Rests s := by
  have key : ∀ {t w c p f₁ f₂}, CoreAt s t w c p f₁ f₂ → t ≠ .flushForHalt → t ≠ .wholeFlush →
      False := by
    intro t w c p f₁ f₂ hc h1 h2
    rcases hd with hd | ⟨hd, -⟩
    · exact h1 (hc.state.symm.trans hd)
    · exact h2 (hc.state.symm.trans hd)
  have work : ∀ {w c p a b d j f₂}, CoreAt s .wholeFlush w c p false f₂ →
      L1dAt s a b d j false → False := by
    intro w c p a b d j f₂ hc h₁
    rcases hd with hd | ⟨-, hd | hd⟩
    · exact absurd (hc.state.symm.trans hd) (by decide)
    · exact absurd (h₁.done.symm.trans hd) (by decide)
    · exact absurd (hc.l1d.symm.trans hd) (by decide)
  cases h with
  | boot _ _ _ hr | wholeDone _ _ hr | walk _ _ hr | walkDone _ _ hr => exact hr
  | active hc => exact (key hc (by decide) (by decide)).elim
  | line _ _ hc => exact (key hc (by decide) (by decide)).elim
  | wholePulse hc h₁ | wholePend hc h₁ | wholeWork hc _ _ h₁ => exact (work hc h₁).elim

/-- The core does not start a flush with the L1D's part done. -/
theorem drained_next (h : Phase s) (hd : Drained (s.next g i)) :
    Drained s ∨ (s.next g i).l1d.regs.flushComplete = true := by
  have hcore : (s.next g i).core = s.core.next i.coreOp i.retiredPending s.l1d.regs.flushComplete
      s.l2.regs.flushComplete := rfl
  unfold Drained at hd ⊢
  rw [hcore, CorePort.next] at hd
  cases hs : s.core.state with
  | flushForHalt => exact .inl (.inl rfl)
  | lineFlush =>
    simp only [hs] at hd
    split at hd <;> simp at hd
  | wholeFlush =>
    simp only [hs] at hd
    split at hd
    · simp at hd
    · rcases hd with hd | ⟨-, hd | hd⟩
      · simp at hd
      · exact .inr hd
      · rw [Bool.or_eq_true] at hd
        exact .inl (.inr ⟨rfl, hd.symm⟩)
  | active =>
    have hz : s.core.l1dFlushComplete = false ∧ s.l1d.regs.flushComplete = false := by
      cases h with
      | active hc h₁ => exact ⟨hc.l1d, h₁.done⟩
      | boot _ _ hc | line _ _ hc | wholePulse hc | wholePend hc | wholeWork hc | wholeDone hc
      | walk hc | walkDone hc => exact absurd (hs.symm.trans hc.state) (by decide)
    refine .inr ?_
    simp only [hs, hz.1, hz.2, Bool.or_self] at hd
    cases ho : i.coreOp <;> simp [ho] at hd
    exact hd

/-- What is sent to the L2 as a writeback was in the L1D. -/
theorem Turn.held {M V V' : Mem} (ht : Turn g s (nextProto g s i) (nextArr g s i) M V V')
    (hv : (nextProto g s i).memReqValid = true) (hq : (nextProto g s i).memReq.Stores) :
    ∃ j, L1d.Holds g s.l1d.arr (nextProto g s i).memReq.addr j := by
  cases ht with
  | send _ _ _ hh => exact ⟨_, hh⟩
  | keep hv' _ => exact absurd hq (hv' hv)
  | discard _ _ hq' => exact absurd hq hq'
  | store _ _ hv' | fill _ _ _ hv' | probe _ hv' | taken _ _ _ hv' =>
    exact absurd (hv.symm.trans hv') (by decide)

theorem still_next (hs : Sound g s) (h : Drained s → ∀ x, ¬ Flight s x)
    (hd : Drained (s.next g i)) (x : LineAddr) : ¬ Flight (s.next g i) x := by
  intro hf
  rcases drained_next hs.phase hd with hd | hd
  · rcases flight_next hs hf with ⟨hf, -⟩ | ⟨hv, hq, -⟩
    · exact h hd x hf
    · obtain ⟨j, hj⟩ := (turn (i := i) hs s.dram s.dram).held hv hq
      exact absurd hj.1 (by simp [(hs.phase.drained_rests hd).empty j])
  · exact absurd hf.1 (by rw [show (s.next g i).l1dOut = false from
      L1d.done_step hs.l1dStep hd]; decide)

/-- The copies an operation is about are gone when it is done. -/
structure Finished (g : Geometry) (s : Hier) : Prop where
  snoop : s.l2.regs.snoopDone = true → ¬ L2View.Has g s.l2.view s.l2.regs.saveaddr
  rsp : s.l1dRsp = true → s.l1d.regs.memReq.Leaves →
    s.l2.regs.state = .idle ∧ ¬ L2View.Has g s.l2.view s.l1d.regs.memReq.addr
  swept : L2View.Swept g s.l2.view
  still : Drained s → ∀ x, ¬ Flight s x
  /-- A writeback of a probed line is in the reply. -/
  clean : s.l1d.regs.prbAck = true → s.l1d.regs.prbDirty = false →
    ¬ Flight s s.l2.regs.probeAddr

/-- The core never asks for a flush that the L2 would skip. -/
theorem tick_flushSkip (hs : Sound g s) :
    (L2View.tick s.l2.view.regs (s.l2Pins g i)).flushSkip = false := by
  have key : ∀ {w q d}, L2At s w q d →
      (s.l2.regs.flushSkip || ((L2.flushComb s.l2.regs (s.l2Pins g i)).l2FlushReq &&
        (L2.flushComb s.l2.regs (s.l2Pins g i)).l2SkipWalk)) = false := by
    rintro w q d ⟨hst, hd, hi, hh, hk, -⟩
    cases w <;> cases hc : s.l1d.regs.flushComplete <;> cases hr : s.core.flushReqL1d <;>
      simp [L2.flushComb, hst, hd, hi, hh, hk, l2Pins, hc, hr]
  cases hs.phase with
  | boot _ _ _ _ _ h₂ =>
    rcases h₂ with ⟨h₂, -⟩ | ⟨h₂, -⟩ | ⟨h₂, -⟩ <;> exact key h₂
  | active _ _ h₂ | line _ _ _ _ h₂ | wholePulse _ _ h₂ | wholePend _ _ h₂ | wholeWork _ _ _ _ h₂
  | wholeDone _ _ _ _ h₂ | walk _ _ _ _ h₂ | walkDone _ _ _ _ h₂ => exact key h₂

theorem finished_rsp (hs : Sound g s) (hp : Present g s) (hu : Undisturbed g s i)
    (hr : (s.next g i).l1dRsp = true) (hl : (s.next g i).l1d.regs.memReq.Leaves) :
    (s.next g i).l2.regs.state = .idle ∧
      ¬ L2View.Has g (s.next g i).l2.view (s.next g i).l1d.regs.memReq.addr := by
  have hs' := sound_next hs (i := i)
  have hp' := present_next hs hp hu
  have hstep := hs.l2Step (i := i)
  have hr' := hr
  rw [hs'.wf.route.1, Bool.and_eq_true] at hr'
  have hsv : (s.next g i).served = true := by simp [served, hr'.1]
  have hlink := hp'.link hsv hr'.2
  have hi : (s.next g i).l2.regs.state = .idle := by
    rcases hs'.wf.pulses.rsp hr'.1 with h | h
    · exact h
    · -- an early response is one to a cacheable writeback
      have hw : (s.next g i).l2.regs.state = .waitForRam := h
      obtain ⟨ho, hun⟩ := hp'.early hr'.1 hw
      have htag := hlink.tagged (by rw [hw]; decide)
      rw [Tagged, hw, hun] at htag
      have hca : (s.next g i).l1d.regs.memReq.cacheable = true := by simpa using htag.symm
      rcases hl with hl | hl
      · exact absurd (hca.symm.trans hl) (by decide)
      · rw [← hlink.opcode, ho] at hl
        cases hl
  refine ⟨hi, ?_⟩
  rw [← hlink.addr]
  refine L2View.gone_step hstep hs.wf.ctl
    (.inr ⟨hr'.1, hi, hl.imp (fun hca hne => ?_) fun h => ?_⟩)
  · -- the request was in service before
    have hna : accepts s.l2.regs (s.l2Pins g i) = false := by
      cases ha : accepts s.l2.regs (s.l2Pins g i)
      · rfl
      · exact absurd (idle_of_accepts ha) hne
    rw [hs.wf.served_next, hna, Bool.or_false, Bool.and_eq_true] at hsv
    have hfd : s.l2.regs.fromD = true :=
      (L2View.sameReq_step hstep hne).fromD.symm.trans hr'.2
    have hold := hp.link hsv.1 hfd
    rw [hs.memReq_held (hs.out_of_served hsv.1 hfd)] at hca
    rw [← hca]
    exact hold.tagged hne
  · rw [← hlink.opcode] at h
    exact h

theorem clean_next (hs : Sound g s) (ha : (nextProto g s i).prbAck = true)
    (hd : (nextProto g s i).prbDirty = false) :
    ¬ Flight (s.next g i) (s.next g i).l2.regs.probeAddr := by
  intro hf
  obtain ⟨hst, -, hpa, -⟩ := probe_of_ack hs ha
  have hstep : L1d.Step g s.l1d (s.l1dPins i) (nextProto g s i) (nextArr g s i) := hs.l1dStep
  obtain ⟨hnv, hpd, -, -⟩ := L1d.reply_step hstep hst
  rw [hpa] at hf
  rcases flight_next hs hf with ⟨⟨ho, -, hq, hx⟩, -⟩ | ⟨hv, -⟩
  · have hret : s.l1d.regs.prbRet ≠ .active := by
      intro hret
      have ho' : s.l1d.regs.proto.out = true := ho
      rw [L1d.Proto.out, L1d.Proto.behind, L1d.behind,
        if_pos (show s.l1d.regs.proto.state = _ from hst),
        show s.l1d.regs.proto.prbRet = _ from hret] at ho'
      cases ho'
    have hop : (s.l1d.regs.memReq.opcode == .sw || s.l1d.regs.memReq.opcode == .wb) = true := by
      rcases hq.2 with h | h <;> rw [h] <;> rfl
    have hpx : s.l1d.regs.memReq.addr = (s.l1dPins i).probeAddr := hx
    rw [hd] at hpd
    simp [hret, hop, hpx] at hpd
  · exact absurd (hv.symm.trans hnv) (by decide)

theorem finished_next (hs : Sound g s) (hp : Present g s) (h : Finished g s)
    (hu : Undisturbed g s i) : Finished g (s.next g i) where
  snoop hd := L2View.gone_step hs.l2Step hs.wf.ctl (.inl hd)
  rsp := finished_rsp hs hp hu
  swept := L2View.swept_step hs.l2Step hs.wf.ctl (tick_flushSkip hs) h.swept
  still := still_next hs h.still
  clean := clean_next hs

theorem finished_reset (c : Contents) : Finished g (reset c false) where
  snoop h := absurd h Bool.false_ne_true
  rsp h := absurd h Bool.false_ne_true
  swept :=
    { init := fun _ j h0 hj => absurd (Nat.lt_of_lt_of_le h0 hj) (Nat.lt_irrefl 0)
      wait := fun h => by rcases h with h | h <;> cases h
      store := fun h => nomatch h
      done := fun h => absurd h Bool.false_ne_true }
  still _ _ h := absurd h.1 Bool.false_ne_true
  clean h := absurd h Bool.false_ne_true

/-! ## The laws -/

theorem has_view (hi : s.l2.regs.state = .idle) (x : LineAddr) :
    L2View.Has g s.l2.view x ↔ s.l2.Has g x := by
  rw [L2View.Has, L2.Has, L2.view_arr (by simp [hi])]

section Laws

variable (hs : Sound g s) (hp : Present g s) {m : Seen} (hn : Newest g s m)

/-- A line that the L2 does not have is not in the L1D. -/
theorem absent_of_not_has (hp : Present g s) {x : LineAddr}
    (hx : ¬ L2View.Has g s.l2.view x) : Absent g s x := by
  intro j hj
  have hr := hp.incl x j hj
  exact hx ⟨hr.1, hr.2.1⟩

include hn

theorem dram_of_not_has (hi : s.l2.regs.state = .idle) {x : LineAddr}
    (hx : ¬ L2View.Has g s.l2.view x) : m.below x = s.dram x := by
  rw [(hn.mem.idle hi x).1, if_neg fun h => hx ((has_view hi x).mpr h)]

include hs hp

/-- A line that is in neither cache is in DRAM, or in its writeback. -/
theorem cpu_of_not_has (hi : s.l2.regs.state = .idle) {x : LineAddr}
    (hx : ¬ L2View.Has g s.l2.view x) : s.dram x = m.cpu x ∨ Flight s x := by
  rcases hn.base x with hb | ⟨-, j, hj, -⟩ | hf | hr
  · exact .inl (hb.trans (dram_of_not_has hn hi hx)).symm
  · exact absurd hj (absent_of_not_has hp hx j)
  · exact .inr hf
  · exact absurd hi (not_idle_of_ack hs hr.1)

end Laws

theorem finished_run {c : Contents} {is : List Stim}
    (h : Hw.RunOk (next g) (Safe g) (reset c false) is) :
    Finished g ((reset c false).run g is) :=
  (h.invariant (I := fun s => Sound g s ∧ Present g s ∧ Finished g s)
    (fun _ _ hI hu => ⟨sound_next hI.1, present_next hI.1 hI.2.1 hu.1,
      finished_next hI.1 hI.2.1 hI.2.2 hu.1⟩)
    ⟨sound_reset c false, present_reset c, finished_reset c⟩).2.2

/-- The stored line is snooped. -/
def snoopRun (n : Nat) : List Stim :=
  storeRun ++ { quiet with snoopReqValid := true, snoopReqWbinv := true } :: List.replicate n quiet

end Hier

end R9999
