import R9999.Frontend.Stages

/-!
# From one stage to the next

One lemma for what each stage becomes while the core stays in it and one for each way out,
and with them a cycle of every state of the core.
-/

namespace R9999

namespace Frontend

open Core (Entry Params Comb Sane FsmState comb)

/-- `RAT` goes on with an acknowledge that is older than the last request, and what the fetch
queue holds was fetched before that request. -/
def StaleAck (s : HistState) (i : HistIn) : Prop :=
  s.core.regs.state = .rat ∧ acked s = true ∧ pending s = true ∧ ack s i = false ∧ s.fq ≠ []

instance (s : HistState) (i : HistIn) : Decidable (StaleAck s i) :=
  inferInstanceAs (Decidable (_ ∧ _ ∧ _ ∧ _ ∧ _))

section Step

variable {p : Params} {s : HistState} {i : HistIn}

/-! ## The queues of a cycle in which nothing moves -/

/-- A complete entry at the head stays. -/
theorem head_next {e : Entry} {es : List Entry} (hrob : s.core.rob = e :: es)
    (hdone : e.done = true) (hl : Core.leaving (turn p s i) = 0)
    (hclr : (turn p s i).clrRob = false) :
    ∃ fs, (histNext p s i).core.rob = e :: fs := by
  have hnext : (histNext p s i).core.rob = (Core.progress s.core (coreIn s i)).drop 0 ++
      Core.newEntries s.core (coreIn s i) (turn p s i) := by
    rw [← hl]
    exact Core.rob_next hclr
  rw [hnext]
  simp [Core.progress, hrob, Entry.next_of_done hdone]

theorem leaves_cons {e : Entry} {es : List Entry} (hp : Links s) (hrob : s.core.rob = e :: es)
    (hl : Core.leaving (turn p s i) = 1) : ∃ a, leaves s (turn p s i) = [(e, a)] := by
  have hr := hp.rob
  rw [hrob] at hr
  obtain ⟨a, as, -, -, htags⟩ := List.forall₂_cons_left_iff.mp hr
  exact ⟨a, by simp [leaves, hrob, htags, hl]⟩

theorem robTags_still (hl : Core.leaving (turn p s i) = 0) (ha : (turn p s i).alloc = false)
    (hclr : (turn p s i).clrRob = false) : (histNext p s i).robTags = s.robTags := by
  rw [robTags_next hclr, hl, Core.allocating, ha]
  simp

/-- The ledger of a cycle in which nothing leaves. -/
theorem ledger_still (hack : ack s i = false) (hl : Core.leaving (turn p s i) = 0)
    (hclr : (turn p s i).clrRob = false) :
    (histNext p s i).ledger.left = s.ledger.left ∧
      (histNext p s i).ledger.older = s.ledger.older ∧
      (histNext p s i).ledger.fetched = s.ledger.fetched ++ pushes s i := by
  rw [ledger_go hack, leaves_nil hl, hclr, hl]
  simp

/-- What a state that only waits does to the reorder buffer. -/
theorem still_turn (hp : Placed s) (hs : s.core.regs.state.still = true) :
    Core.leaving (turn p s i) = 0 ∧ (turn p s i).alloc = false ∧
      (turn p s i).clrRob = false := by
  have hc := Core.comb_still (p := p) (i := coreIn s i) hp.sane.rob hp.sane.fits hs
  rw [← turn_eq] at hc
  exact ⟨by simp [Core.leaving, hc.retire, hc.bumpRobHead], hc.alloc, hc.clrRob⟩

/-! ## A faulting entry at the head -/

theorem Stopped.next (h : Stopped s) (hl : Core.leaving (turn p s i) = 0)
    (hclr : (turn p s i).clrRob = false)
    (hrv : (histNext p s i).core.regs.restartValid = false) : Stopped (histNext p s i) := by
  obtain ⟨e, es, hrob, hdone, hfault⟩ := h.head
  obtain ⟨hleft, holder, hfetched⟩ := ledger_still (p := p) (ack_of_calm h.calm.1) hl hclr
  obtain ⟨fs, hfs⟩ := head_next hrob hdone hl hclr
  refine ⟨calm_next h.calm.1 hrv, ⟨e, fs, hfs, hdone, hfault⟩, holder.trans h.older, ?_, ?_⟩
  · rw [hleft]
    exact h.left
  · rw [hleft, hfetched]
    exact h.pre.trans (List.prefix_append _ _)

/-- The faulting entry leaves. -/
theorem Stopped.leave (h : Stopped s) (hp : Placed s) (hl : Core.leaving (turn p s i) = 1)
    (hclr : (turn p s i).clrRob = false)
    (hgot : (histNext p s i).core.regs.gotRestartAck = false) : Redirected (histNext p s i) := by
  obtain ⟨e, es, hrob, hdone, hfault⟩ := h.head
  obtain ⟨a, ha⟩ := leaves_cons (p := p) (i := i) hp.links hrob hl
  have hack := ack_of_calm (i := i) h.calm.1
  have hno : onPath (e, a) = false := by simp [onPath, hfault]
  have hacked : acked (histNext p s i) = false := by
    rw [acked, hgot, Bool.false_or]
    exact hack
  refine ⟨fun hyes => ?_, fun _ => ?_⟩
  · rw [hacked] at hyes
    cases hyes
  · rw [ledger_go hack]
    dsimp only
    rw [ha, hclr, h.older, List.drop_zero, if_neg Bool.false_ne_true, Nat.zero_sub]
    refine ⟨rfl, ⟨(e, a), by simp, hno⟩, ?_⟩
    rw [List.takeWhile_append_of_pos h.left, List.takeWhile_cons_of_neg (by simp [hno]),
      List.append_nil]
    exact h.pre.trans (List.prefix_append _ _)

/-! ## Behind the faulting entry -/

theorem Redirected.next (h : Redirected s) (hp : Placed s) (hsa : s.core.regs.state ≠ .active)
    (hsc : s.core.regs.state ≠ .cacheFlush) (ha : (turn p s i).alloc = false) :
    Redirected (histNext p s i) := by
  have hlen : (histNext p s i).core.rob.length =
      if (turn p s i).clrRob then 0
      else s.core.rob.length - Core.leaving (turn p s i) := by
    change (Core.nextRob s.core (coreIn s i) (turn p s i)).length = _
    unfold Core.nextRob
    split
    · rfl
    · rw [Core.newEntries_nil ha, List.append_nil, List.length_drop, Core.progress_length]
  have hgot : (histNext p s i).core.regs.gotRestartAck = acked s := by
    rw [got_next, if_neg hsa]
  have hdrop : dropping p s i = 0 := if_neg hsa
  cases hack : ack s i with
  | true =>
    refine ⟨fun _ => ?_, fun hno => ?_⟩
    · rw [ledger_ack hack]
      exact ⟨fq_ack hp.sync hack, rfl, rfl⟩
    · rw [acked, show (histNext p s i).restartAck = true from hack, Bool.or_true] at hno
      cases hno
  | false =>
    have hra : (histNext p s i).restartAck = false := hack
    refine ⟨fun hyes => ?_, fun hno => ?_⟩
    · rw [acked, hgot, hra, Bool.or_false] at hyes
      obtain ⟨hfq, hleft, holder⟩ := h.again hyes
      rw [ledger_go hack, fq_go hp.sync hack hsc, hdrop, hfq, hlen]
      refine ⟨rfl, ?_, ?_⟩
      · -- all that leaves is from before the acknowledge
        have hnone : (leaves s (turn p s i)).drop s.ledger.older = [] := by
          rw [List.drop_eq_nil_iff, holder]
          have h1 := congrArg List.length (leaves_fst hp.links (turn p s i))
          rw [List.length_map, List.length_take] at h1
          omega
        dsimp only
        rw [hleft, hnone]
        rfl
      · dsimp only
        rw [holder]
    · rw [acked, hgot, hra, Bool.or_false] at hno
      obtain ⟨holder, hfails, hpre⟩ := h.broken hno
      rw [ledger_go hack]
      dsimp only
      rw [holder, List.drop_zero, Nat.zero_sub, ite_self]
      refine ⟨rfl, ?_, ?_⟩
      · obtain ⟨x, hx, hf⟩ := hfails
        exact ⟨x, List.mem_append_left _ hx, hf⟩
      · rw [Hw.takeWhile_append_of_fails hfails]
        exact hpre.trans (List.prefix_append _ _)

/-- `RAT` goes on. -/
theorem Redirected.resume (h : Redirected (histNext p s i)) (hp : Placed s)
    (hs : s.core.regs.state = .rat) (hn : (histNext p s i).core.regs.state = .active)
    (hstale : ¬ StaleAck s i) : Live (histNext p s i) := by
  have hacked : acked s = true := by
    have hr := Core.resume_acked (p := p) (i := coreIn s i) (by rw [hs]; rfl) hn
    rw [acked, Bool.or_eq_true]
    exact hr
  have hgot : (histNext p s i).core.regs.gotRestartAck = true := by
    rw [got_next, if_neg (by rw [hs]; decide), hacked]
  obtain ⟨hfq, hleft, holder⟩ := h.again (by rw [acked, hgot, Bool.true_or])
  have hclr : (turn p s i).clrRob = true := Core.clrRob_rat hs
  have hclrDq : (turn p s i).clrDq = true := by
    rw [turn_eq, Core.comb_rat hs]
    simp only [Core.finish, Core.rat]
    split <;> rfl
  have hrob : (histNext p s i).core.rob = [] := Core.rob_clear hclr
  have hrv : (histNext p s i).core.regs.restartValid = false := by
    change (comb p s.core (coreIn s i)).n.restartValid = false
    rw [Core.comb_rat hs]
    simp only [Core.finish, Core.rat]
    split <;> rfl
  rw [hrob] at holder
  have hold : s.robTags.length = s.core.rob.length := hp.links.rob.length_eq.symm
  have htags : (histNext p s i).robTags = [] := by
    have hl := (links_next (p := p) (i := i) hp.links).rob.length_eq
    rw [hrob] at hl
    exact List.length_eq_zero_iff.mp hl.symm
  refine ⟨?_, ?_, ?_, ?_, ?_⟩
  · rw [hleft, htags, dqTags_clear hclrDq, hfq]
    simp
  · rw [hleft]
    intro x hx
    cases hx
  · rw [hrob]
    intro k e _ he
    simp at he
  · rw [hrob]
    intro k e _ he
    simp at he
  · intro hfresh
    cases hack : ack s i with
    | true => rw [ledger_ack hack]
    | false =>
      have hpend : pending s = true := by
        obtain hq | hq := hfresh
        · rw [pending, hrv, restartReq_next, hack, Bool.not_false, Bool.and_true,
            Bool.false_or] at hq
          exact hq
        · rw [show (histNext p s i).restartAck = false from hack] at hq
          cases hq
      -- nothing was fetched for the older of the two acknowledges
      have hempty : s.fq = [] := by
        by_contra hne
        exact hstale ⟨hs, hacked, hpend, hack, hne⟩
      rw [← hfq, fq_go hp.sync hack (by rw [hs]; decide), hempty, pushes_of_pending hpend,
        List.drop_nil, List.append_nil]

/-! ## A serializing operation -/

theorem Ready.next (h : Ready s) (hl : Core.leaving (turn p s i) = 0)
    (ha : (turn p s i).alloc = false) (hclr : (turn p s i).clrRob = false)
    (hclrDq : (turn p s i).clrDq = false) (hdq : s.dqTags ≠ [])
    (hsa : s.core.regs.state ≠ .active)
    (hrv : (histNext p s i).core.regs.restartValid = false) : Ready (histNext p s i) := by
  obtain ⟨hleft, holder, hfetched⟩ := ledger_still (p := p) (ack_of_calm h.calm.1) hl hclr
  refine ⟨calm_next h.calm.1 hrv, ?_, holder.trans h.older, ?_, ?_⟩
  · rw [got_next, if_neg hsa, acked, h.got, h.calm.2]
    rfl
  · rw [hleft]
    exact h.left
  · rw [hleft, hfetched, dqTags_next hclrDq, Core.allocating, ha]
    obtain ⟨a, as, has⟩ := List.exists_cons_of_ne_nil hdq
    have hpre := h.pre
    rw [has] at hpre ⊢
    simpa using hpre.trans (List.prefix_append _ _)

/-- The operation is allocated. -/
theorem Ready.alone (h : Ready s) (hl : Core.leaving (turn p s i) = 0)
    (ha : (turn p s i).alloc = true) (h2 : (turn p s i).allocTwo = false)
    (hclr : (turn p s i).clrRob = false) (htags : s.robTags = [])
    (hsa : s.core.regs.state ≠ .active) : Alone (histNext p s i) := by
  obtain ⟨hleft, holder, hfetched⟩ := ledger_still (p := p) (ack_of_calm h.calm.1) hl hclr
  refine ⟨?_, fun _ => ⟨holder.trans h.older, ?_, ?_⟩⟩
  · rw [got_next, if_neg hsa, acked, h.got, h.calm.2]
    rfl
  · rw [hleft]
    exact h.left
  · rw [hleft, hfetched, robTags_next hclr, htags, hl, Core.allocating, ha, h2]
    simpa using h.pre.trans (List.prefix_append _ _)

theorem Alone.next (h : Alone s) (hp : Placed s) (hs : s.core.regs.state.still = true)
    (hsa : s.core.regs.state ≠ .active) (hra : s.restartAck = false) :
    Alone (histNext p s i) := by
  obtain ⟨hl, ha, hclr⟩ := still_turn (p := p) (i := i) hp hs
  refine ⟨?_, fun hack => ?_⟩
  · rw [got_next, if_neg hsa, acked, h.got, hra]
    rfl
  · obtain ⟨hleft, holder, hfetched⟩ := ledger_still (p := p) (s := s) (i := i) hack hl hclr
    obtain ⟨hold, hgood, hpre⟩ := h.held hra
    rw [hleft, hfetched, robTags_still hl ha hclr]
    exact ⟨holder.trans hold, hgood, hpre.trans (List.prefix_append _ _)⟩

/-- The fetch has begun again behind the operation. -/
theorem Alone.resume (h : Alone s) (hp : Placed s) (hs : s.core.regs.state.still = true)
    (hw : s.core.regs.state.awaits = true) (hn : (histNext p s i).core.regs.state = .active)
    (hclrDq : (turn p s i).clrDq = true) {e : Entry} (hrob : s.core.rob = [e])
    (hser : e.uop.serializingOp = true) (hdone : e.done = true) : Live (histNext p s i) := by
  have hra : s.restartAck = true := by
    obtain hr | hr := Core.resume_acked (p := p) (i := coreIn s i) hw hn
    · rw [h.got] at hr
      cases hr
    · exact hr
  obtain ⟨hl, ha, hclr⟩ := still_turn (p := p) (i := i) hp hs
  obtain ⟨-, -, -, hleft, -, holder⟩ := hp.sync.acked hra
  obtain ⟨hfetched, hfq⟩ := fetched_behind (p := p) (i := i) hp.sync hra
  have hrob' : (histNext p s i).core.rob = [e] := by
    change (Core.next p s.core (coreIn s i)).rob = _
    rw [Core.rob_next hclr, ← turn_eq, hl, Core.newEntries_nil ha]
    simp [Core.progress, hrob, Entry.next_of_done hdone]
  have hfields : (histNext p s i).ledger.left = [] ∧ (histNext p s i).ledger.older = 1 := by
    cases hack : ack s i with
    | true =>
      rw [ledger_ack hack, hrob']
      exact ⟨rfl, rfl⟩
    | false =>
      obtain ⟨hleft', holder', -⟩ := ledger_still (p := p) (s := s) (i := i) hack hl hclr
      rw [hleft', holder', hleft, holder, hrob]
      exact ⟨rfl, rfl⟩
  have hlen := (links_next (p := p) (i := i) hp.links).rob.length_eq
  rw [hrob'] at hlen
  have hplain : e.uop.isBr = false := by
    by_contra hbr
    have hr := hp.links.rob
    rw [hrob] at hr
    obtain ⟨a, as, he, -, -⟩ := List.forall₂_cons_left_iff.mp hr
    have hslot := he.decoded.slot (by simpa using hbr)
    rw [(e.uop.ok.plain (e.uop.ok.serializing hser)).2.2.2.1] at hslot
    cases hslot
  refine ⟨?_, ?_, ?_, ?_, fun _ => hfetched⟩
  · rw [hfields.1, hfields.2, dqTags_clear hclrDq, hfq, hfetched,
      show (histNext p s i).robTags.drop 1 = [] from List.drop_eq_nil_iff.mpr (le_of_eq hlen.symm)]
    rfl
  · rw [hfields.1]
    intro x hx
    cases hx
  · rw [hfields.2, hrob']
    intro k b hk hb
    obtain rfl : k = 0 := by omega
    rw [List.getElem?_cons_zero, Option.some.injEq] at hb
    rw [← hb]
    exact ⟨hdone, (hp.sane.rob e (by simp [hrob])).quiet (e.uop.ok.serializing hser), hplain⟩
  · rw [hfields.2, hrob']
    intro k b hk hb
    have hlt := (List.getElem?_eq_some_iff.mp hb).1
    rw [List.length_singleton] at hlt
    omega

/-! ## Before the first fetch -/

theorem boot_reset (tlb : Fin Iss.numTlbEntries → Mmu.TlbStored)
    (micro : Fin Mmu.numUitlbEntries → Mmu.MicroEntry) : Boot (histReset tlb micro) :=
  ⟨rfl, rfl, rfl, rfl, rfl, fun _ => rfl⟩

theorem Boot.pushes_nil (h : Boot s) (hy : Sync s) : pushes s i = [] := by
  obtain hp | ⟨hreq, -, hrun, -⟩ := pushes_cases (s := s) (i := i)
  · exact hp
  · cases hra : s.restartAck with
    | true =>
      rw [(hy.acked hra).1] at hreq
      cases hreq
    | false =>
      rw [h.running hra] at hrun
      cases hrun

theorem Boot.next (h : Boot s) (hp : Placed s)
    (hs : s.core.regs.state.still = true) (hsa : s.core.regs.state ≠ .active)
    (hra : s.restartAck = false) : Boot (histNext p s i) := by
  have hpush := h.pushes_nil (i := i) hp.sync
  have hfq : (histNext p s i).fq = [] := by
    change (if s.fetch.clears (fetchIn s i) then [] else _) = _
    split
    · rfl
    · rw [h.fq, hpush, List.drop_nil, List.append_nil]
  have hdq : (histNext p s i).core.dq = [] := by
    have hin : Core.pushed p s.core (coreIn s i) (turn p s i) = [] := by
      simp [Core.pushed, coreIn, h.fq]
    change (if (turn p s i).clrDq then [] else s.core.dq.drop _ ++
      Core.decoded s.core (coreIn s i) (Core.pushed p s.core (coreIn s i) (turn p s i))) = []
    split
    · rfl
    · rw [hin, h.dq, List.drop_nil]
      rfl
  obtain ⟨hl, -, hclr⟩ := still_turn (p := p) (i := i) hp hs
  refine ⟨?_, hdq, hfq, ?_, ?_, ?_⟩
  · rw [got_next, if_neg hsa, acked, h.got, hra]
    rfl
  · cases hack : ack s i with
    | true => rw [ledger_ack hack]
    | false =>
      rw [ledger_go hack]
      dsimp only
      rw [h.fetched, hpush]
      rfl
  · cases hack : ack s i with
    | true => rw [ledger_ack hack]
    | false => exact (ledger_still hack hl hclr).1.trans h.left
  · intro hack
    have hrun := h.running hra
    have hh := handshake (p := p) (s := s) (i := i)
    cases hh with
    | wait _ _ _ _ _ hr => rw [hr, hrun]
    | flush _ _ hr =>
      rw [hrun] at hr
      cases hr
    | restart hyes => exact absurd (hack.symm.trans hyes) Bool.false_ne_true

/-- The first fetch has begun. -/
theorem Boot.resume (h : Boot s) (hp : Placed s) (hrob : s.core.rob = [])
    (hs : s.core.regs.state = .haltWaitForRestart) (hra : s.restartAck = true) :
    Live (histNext p s i) := by
  obtain ⟨hl, ha, hclr⟩ := still_turn (p := p) (i := i) hp (by rw [hs]; rfl)
  obtain ⟨-, -, -, hleft, hfq0, holder⟩ := hp.sync.acked hra
  obtain ⟨hfetched, hfq⟩ := fetched_behind (p := p) (i := i) hp.sync hra
  have hrob' : (histNext p s i).core.rob = [] := by
    change (Core.next p s.core (coreIn s i)).rob = _
    rw [Core.rob_next hclr, ← turn_eq, hl, Core.newEntries_nil ha]
    simp [Core.progress, hrob]
  have hleft' : (histNext p s i).ledger.left = [] := by
    cases hack : ack s i with
    | true => rw [ledger_ack hack]
    | false => exact (ledger_still hack hl hclr).1.trans hleft
  have hlinks := links_next (p := p) (i := i) hp.links
  have htags : (histNext p s i).robTags = [] := by
    have hlen := hlinks.rob.length_eq
    rw [hrob'] at hlen
    exact List.length_eq_zero_iff.mp hlen.symm
  have hdq : (histNext p s i).dqTags = [] := by
    have hold := hp.links.dq.length_eq
    rw [h.dq] at hold
    change (if (turn p s i).clrDq then [] else _) = _
    split
    · rfl
    · rw [List.length_eq_zero_iff.mp hold.symm, hfq0, List.drop_nil, List.take_nil]
      rfl
  refine ⟨?_, ?_, ?_, ?_, fun _ => hfetched⟩
  · rw [hleft', htags, hdq, hfq, hfetched, List.drop_nil]
    rfl
  · rw [hleft']
    intro x hx
    cases hx
  · rw [hrob']
    intro k e _ he
    simp at he
  · rw [hrob']
    intro k e _ he
    simp at he

/-! ## The states of the core -/

/-- The state of the core after the cycle. -/
theorem state_eq {c : Comb} (hc : turn p s i = c) :
    (histNext p s i).core.regs.state = c.n.state := by
  rw [← hc]
  rfl

theorem restartValid_eq {c : Comb} (hc : turn p s i = c) :
    (histNext p s i).core.regs.restartValid = c.n.restartValid := by
  rw [← hc]
  rfl

/-- The reorder buffer is cleared in `RAT`, and nothing is allocated but in `ACTIVE` and for a
serializing operation. -/
theorem quiet_turn (hp : Placed s) (hs : s.core.regs.state = .drain ∨
    s.core.regs.state = .archFault ∨ s.core.regs.state = .rat) :
    (turn p s i).alloc = false ∧ (s.core.regs.state ≠ .rat → (turn p s i).clrRob = false) := by
  constructor
  · by_contra ha
    obtain ⟨hst, -⟩ | ⟨hst, -⟩ := Core.alloc_cases (p := p) (i := coreIn s i) hp.sane.rob
      hp.sane.fits (by simpa [turn_eq] using ha)
    · simp [hst] at hs
    · obtain hst | hst := hst <;> simp [hst] at hs
  · intro hne
    by_contra hc
    exact hne (Core.clrRob_cases (p := p) (i := coreIn s i) hp.sane.rob hp.sane.fits
      (by simpa [turn_eq] using hc))

/-- A serializing operation is at the head of the decode queue. -/
theorem Live.ready (h : Live s) (hp : Placed s) (hs : s.core.regs.state = .active)
    (hrob : s.core.rob = []) (hdq : s.core.dq ≠ []) (hl : Core.leaving (turn p s i) = 0)
    (ha : (turn p s i).alloc = false)
    (hrv : (histNext p s i).core.regs.restartValid = false) : Ready (histNext p s i) := by
  obtain ⟨hclr, hclrDq⟩ := active_clr (p := p) (i := i) hp hs
  have holder : s.ledger.older = 0 := by
    have hle := hp.sync.older
    rw [hrob] at hle
    exact Nat.le_zero.mp hle
  have hlen := hp.links.dq.length_eq
  obtain ⟨a, as, has⟩ : ∃ a as, s.dqTags = a :: as := by
    refine List.exists_cons_of_ne_nil ?_
    intro hnil
    rw [hnil] at hlen
    exact hdq (List.length_eq_zero_iff.mp hlen)
  have htags : s.robTags = [] := by
    have hl := hp.links.rob.length_eq
    rw [hrob] at hl
    exact List.length_eq_zero_iff.mp hl.symm
  have hwhole := h.whole
  rw [htags, has, List.drop_nil, List.nil_append] at hwhole
  have hne : s.ledger.fetched ≠ [] := by
    rw [← hwhole]
    simp
  have hcalm : pending s = false := by
    by_contra hq
    exact hne (h.fresh (.inl (by simpa using hq)))
  obtain ⟨hleft, holder', hfetched⟩ := ledger_still (p := p) (ack_of_calm hcalm) hl hclr
  refine ⟨calm_next hcalm hrv, ?_, holder'.trans holder, ?_, ?_⟩
  · rw [got_next, if_pos hs]
  · rw [hleft]
    exact h.left
  · rw [hleft, hfetched, dqTags_next hclrDq, Core.allocating, ha, has, ← hwhole]
    refine List.IsPrefix.trans ?_ (List.prefix_append _ _)
    exact (List.prefix_append_right_inj _).mpr (by simp)

theorem stage_active (hp : Placed s) (hs : s.core.regs.state = .active) :
    Stage (histNext p s i) := by
  obtain ⟨c, hturn, hcomb⟩ := Core.comb_active (p := p) (i := coreIn s i) hs
  have hst : Live s ∨ Stopped s := by simpa only [Stage, hs] using hp.stage
  obtain ⟨hclr, -⟩ := active_clr (p := p) (i := i) hp hs
  rw [← turn_eq] at hcomb
  have hgot : (histNext p s i).core.regs.gotRestartAck = false := by rw [got_next, if_pos hs]
  -- a faulting entry at the head stops the path
  have stop {e : Entry} {es : List Entry} (hrob : s.core.rob = e :: es) (hdone : e.done = true)
      (hfault : e.faulted = true) : Stopped s :=
    hst.elim (fun h => h.stopped hp.links hrob hdone hfault) id
  cases hturn with
  | detour b u us hrob hdone hslot hfault hdq hser =>
    have hn := state_eq hcomb
    simp only [Core.finish] at hn
    simp only [Stage, hn]
    exact (stop hrob hdone hfault).next (by simp [hcomb, Core.finish, Core.leaving]) hclr
      (by rw [restartValid_eq hcomb]; rfl)
  | fault e es hrob hdone hfault harch =>
    have hn := state_eq hcomb
    have hl : Core.leaving (turn p s i) = 0 := by
      simp [hcomb, Core.finish, Core.leaving, Core.faultedHead, harch]
    have hrv : (histNext p s i).core.regs.restartValid = false := by
      rw [restartValid_eq hcomb]
      simp [Core.finish, Core.faultedHead, harch, Core.tick]
    simp only [Core.finish, Core.faultedHead, harch, if_true] at hn
    simp only [Stage, hn]
    obtain ⟨fs, hfs⟩ := head_next hrob hdone hl hclr
    exact ⟨.inl ⟨(stop hrob hdone hfault).next hl hclr hrv, hgot⟩, e, fs, hfs, harch⟩
  | restart e es hrob hdone hfault harch hnull hslot =>
    have hn := state_eq hcomb
    have hl : Core.leaving (turn p s i) = 1 := by
      simp [hcomb, Core.finish, Core.leaving, Core.faultedHead, harch]
    simp only [Core.finish, Core.accumulate_n, Core.faultedHead, harch, Bool.false_eq_true,
      if_false] at hn
    simp only [Stage, hn]
    exact (stop hrob hdone hfault).leave hp hl hclr hgot
  | retire e es hrob hdone hfault =>
    have hne : s.core.rob ≠ [] := by simp [hrob]
    have hreg := (Core.allocate_state (p := p) (i := coreIn s i) hne
      (Core.tick s.core (coreIn s i))).1
    have hn : (histNext p s i).core.regs.state = .active := by
      rw [state_eq hcomb]
      simp only [Core.finish, Core.accumulate_n, hreg, Core.tick_state, hs]
    have hrv : (histNext p s i).core.regs.restartValid = false := by
      rw [restartValid_eq hcomb]
      simp only [Core.finish, Core.accumulate_n, hreg]
      rfl
    have hhead : ∀ b bs, s.core.rob = b :: bs → b.done = true → b.faulted = false := by
      intro b bs hb _
      obtain ⟨rfl, -⟩ := List.cons.inj (hrob.symm.trans hb)
      exact hfault
    simp only [Stage, hn]
    obtain h | h := hst
    · exact .inl (h.next hp hs hhead hrv)
    · obtain ⟨b, bs, hb, -, hf⟩ := h.head
      obtain ⟨rfl, -⟩ := List.cons.inj (hrob.symm.trans hb)
      rw [hfault] at hf
      cases hf
  | wait hno =>
    have hfields : (Core.allocate p s.core (coreIn s i) (Core.tick s.core (coreIn s i))).retire =
        false ∧ (Core.allocate p s.core (coreIn s i)
          (Core.tick s.core (coreIn s i))).bumpRobHead = false ∧
        (Core.allocate p s.core (coreIn s i)
          (Core.tick s.core (coreIn s i))).n.restartValid = false := by
      obtain ⟨-, h⟩ | ⟨-, -, h⟩ | ⟨-, h⟩ := Core.allocate_cases (p := p) (s := s.core)
        (i := coreIn s i) (Core.tick s.core (coreIn s i)) <;> rw [h] <;> exact ⟨rfl, rfl, rfl⟩
    have hl : Core.leaving (turn p s i) = 0 := by
      simp [hcomb, Core.finish, Core.leaving, hfields]
    have hrv : (histNext p s i).core.regs.restartValid = false := by
      rw [restartValid_eq hcomb]
      exact hfields.2.2
    have stays (hn : (histNext p s i).core.regs.state = .active) : Stage (histNext p s i) := by
      simp only [Stage, hn]
      obtain h | h := hst
      · by_cases hhead : ∀ e es, s.core.rob = e :: es → e.done = true → e.faulted = false
        · exact .inl (h.next hp hs hhead hrv)
        · -- the head waits for its delay slot
          push Not at hhead
          obtain ⟨e, es, hrob, hdone, hfault⟩ := hhead
          exact .inr ((stop hrob hdone (by simpa using hfault)).next hl hclr hrv)
      · exact .inr (h.next hl hclr hrv)
    obtain ⟨-, h⟩ | ⟨hrob, ⟨u, us, hdq, hser⟩, h⟩ | ⟨-, h⟩ := Core.allocate_cases (p := p)
      (s := s.core) (i := coreIn s i) (Core.tick s.core (coreIn s i))
    · refine stays ?_
      rw [state_eq hcomb, h]
      exact hs
    · have hn := state_eq hcomb
      simp only [h, Core.finish] at hn
      simp only [Stage, hn]
      obtain hlive | hstop := hst
      · exact hlive.ready hp hs hrob (by simp [hdq]) hl (by rw [hcomb, h]; rfl) hrv
      · obtain ⟨e, es, hb, -⟩ := hstop.head
        rw [hrob] at hb
        cases hb
    · refine stays ?_
      rw [state_eq hcomb, h]
      exact hs

theorem stage_drain (hp : Placed s) (hs : s.core.regs.state = .drain) :
    Stage (histNext p s i) := by
  obtain ⟨c, hturn, hcomb⟩ := Core.comb_drain (p := p) (i := coreIn s i) hs
  have h : Redirected s := by simpa only [Stage, hs] using hp.stage
  obtain ⟨ha, hclr⟩ := quiet_turn (p := p) (i := i) hp (.inl hs)
  have hclr := hclr (by rw [hs]; decide)
  have hnext := h.next hp (by rw [hs]; decide) (by rw [hs]; decide) ha
  rw [← turn_eq] at hcomb
  have hn := state_eq hcomb
  cases hturn with
  | wait =>
    simp only [Core.finish, Core.tick_state, hs] at hn
    simpa only [Stage, hn] using hnext
  | rat =>
    simp only [Core.finish] at hn
    simpa only [Stage, hn] using hnext
  | nullify =>
    simp only [Core.finish, Core.tick_state, hs] at hn
    simpa only [Stage, hn] using hnext
  | fault e es hrob hds hdone harch =>
    simp only [Core.finish] at hn
    simp only [Stage, hn]
    obtain ⟨fs, hfs⟩ := head_next hrob hdone
      (by simp [hcomb, Core.finish, Core.leaving]) hclr
    exact ⟨.inr hnext, e, fs, hfs, harch⟩
  | retire =>
    simp only [Core.finish, Core.tick_state, hs] at hn
    simpa only [Stage, hn] using hnext

theorem stage_archFault (hp : Placed s) (hs : s.core.regs.state = .archFault) :
    Stage (histNext p s i) := by
  obtain ⟨h, e, es, hrob, harch⟩ : (Stopped s ∧ s.core.regs.gotRestartAck = false ∨
      Redirected s) ∧ ∃ e es, s.core.rob = e :: es ∧ e.archFault = true := by
    simpa only [Stage, hs] using hp.stage
  obtain ⟨ha, hclr⟩ := quiet_turn (p := p) (i := i) hp (.inr (.inl hs))
  have hclr := hclr (by rw [hs]; decide)
  have hn : (histNext p s i).core.regs.state = .writeEpc := by
    have hmem := Core.state_next (p := p) (i := coreIn s i) hp.sane.rob hp.sane.fits
    rw [hs] at hmem
    exact List.mem_singleton.mp hmem
  simp only [Stage, hn]
  obtain ⟨hstop, hgot⟩ | h := h
  · have hl : Core.leaving (turn p s i) = 1 := by
      simp only [turn_eq, Core.comb_archFault hs, Core.archFault, hrob, Core.finish, Core.leaving]
      split <;> rfl
    refine hstop.leave hp hl hclr ?_
    rw [got_next, if_neg (by rw [hs]; decide), acked, hgot, hstop.calm.2]
    rfl
  · exact h.next hp (by rw [hs]; decide) (by rw [hs]; decide) ha

/-- The exception is taken and the pipes drain. -/
theorem stage_exception (hp : Placed s) (hs : s.core.regs.state = .writeEpc ∨
    s.core.regs.state = .exceptionDrain) : Stage (histNext p s i) := by
  have h : Redirected s := by
    have hst := hp.stage
    obtain hs | hs := hs <;> simpa only [Stage, hs] using hst
  obtain ⟨-, ha, -⟩ := still_turn (p := p) (i := i) hp (by obtain hs | hs := hs <;> rw [hs] <;> rfl)
  have hnext : Redirected (histNext p s i) := by
    obtain hs | hs := hs <;> exact h.next hp (by rw [hs]; decide) (by rw [hs]; decide) ha
  have hmem := Core.state_next (p := p) (i := coreIn s i) hp.sane.rob hp.sane.fits
  obtain hs | hs := hs
  · rw [hs] at hmem
    have hn : (histNext p s i).core.regs.state = .exceptionDrain := List.mem_singleton.mp hmem
    simpa only [Stage, hn] using hnext
  · simp only [hs, FsmState.succs, List.mem_cons, List.not_mem_nil, or_false] at hmem
    obtain hn | hn := hmem
    · have hn : (histNext p s i).core.regs.state = .exceptionDrain := hn
      simpa only [Stage, hn] using hnext
    · have hn : (histNext p s i).core.regs.state = .rat := hn
      simpa only [Stage, hn] using hnext

theorem stage_rat (hp : Placed s) (hs : s.core.regs.state = .rat) (hstale : ¬ StaleAck s i) :
    Stage (histNext p s i) := by
  have h : Redirected s := by simpa only [Stage, hs] using hp.stage
  obtain ⟨ha, -⟩ := quiet_turn (p := p) (i := i) hp (.inr (.inr hs))
  have hnext := h.next (p := p) (i := i) hp (by rw [hs]; decide) (by rw [hs]; decide) ha
  have hmem := Core.state_next (p := p) (i := coreIn s i) hp.sane.rob hp.sane.fits
  simp only [hs, FsmState.succs, List.mem_cons, List.not_mem_nil, or_false] at hmem
  obtain hn | hn := hmem
  · have hn : (histNext p s i).core.regs.state = .rat := hn
    simpa only [Stage, hn] using hnext
  · have hn : (histNext p s i).core.regs.state = .active := hn
    simp only [Stage, hn]
    exact .inl (hnext.resume hp hs hn hstale)

theorem stage_allocate (hp : Placed s) (hs : s.core.regs.state = .allocForSerialize) :
    Stage (histNext p s i) := by
  have h : Ready s := by simpa only [Stage, hs] using hp.stage
  have hsa : s.core.regs.state ≠ .active := by rw [hs]; decide
  obtain ⟨hrob, u, us, hdq, -⟩ : s.core.rob = [] ∧ ∃ u us, s.core.dq = u :: us ∧
      u.serializingOp = true := by
    have hf := hp.sane.fits
    simpa only [Core.Fits, hs] using hf
  have hlen := hp.links.dq.length_eq
  have hdqTags : s.dqTags ≠ [] := by
    intro hnil
    rw [hnil, hdq] at hlen
    cases hlen
  have htags : s.robTags = [] := by
    have hl := hp.links.rob.length_eq
    rw [hrob] at hl
    exact List.length_eq_zero_iff.mp hl.symm
  obtain hc | ⟨-, hc⟩ := Core.alone_turn (p := p) (i := coreIn s i) (.inl ⟨hs, rfl⟩)
  · rw [← turn_eq] at hc
    have hn := state_eq hc
    simp only [Core.finish, Core.tick_state, hs] at hn
    simp only [Stage, hn]
    exact h.next (by simp [hc, Core.finish, Core.leaving]) (by rw [hc]; rfl) (by rw [hc]; rfl)
      (by rw [hc]; rfl) hdqTags hsa (by rw [restartValid_eq hc]; rfl)
  · rw [← turn_eq] at hc
    have hn := state_eq hc
    simp only [Core.finish] at hn
    simp only [Stage, hn]
    refine ⟨h.alone (by simp [hc, Core.finish, Core.leaving]) (by rw [hc]; rfl) (by rw [hc]; rfl)
      (by rw [hc]; rfl) htags hsa, ?_⟩
    obtain ⟨hpend, hra⟩ := calm_next (p := p) (i := i) h.calm.1 (by rw [restartValid_eq hc]; rfl)
    intro hno
    simp [hpend, hra] at hno

/-- The wait for a serializing operation, whose flush or restart follows. -/
theorem stage_wait (hp : Placed s) (hs : s.core.regs.state = .waitForSerializeAndRestart) :
    Stage (histNext p s i) := by
  obtain ⟨h, hreq⟩ : Alone s ∧ (pending s = true ∨ s.restartAck = true →
      ∀ e es, s.core.rob = e :: es →
        e.done = true ∧ e.uop.op ≠ .cacheOp ∧ e.uop.op.isXflush = false) := by
    simpa only [Stage, hs] using hp.stage
  have hsa : s.core.regs.state ≠ .active := by rw [hs]; decide
  have hstill : s.core.regs.state.still = true := by rw [hs]; rfl
  obtain ⟨e, hrob, hser⟩ : ∃ e, s.core.rob = [e] ∧ e.uop.serializingOp = true := by
    have hf := hp.sane.fits
    simpa only [Core.Fits, hs] using hf
  have hcomb : turn p s i = Core.finish s.core (Core.waitForSerialize p s.core
      (Core.tick s.core (coreIn s i))) := by simp [turn_eq, comb, Core.arm, hs]
  have hgot : (Core.tick s.core (coreIn s i)).n.gotRestartAck = s.restartAck := by
    change (if s.core.regs.state = .active then false
      else s.core.regs.gotRestartAck || s.restartAck) = _
    rw [if_neg hsa, h.got, Bool.false_or]
  -- before the operation is complete nothing is asked for
  have calm (hno : ¬ (e.done = true ∧ e.uop.op ≠ .cacheOp ∧ e.uop.op.isXflush = false)) :
      pending s = false ∧ s.restartAck = false := by
    constructor
    · by_contra hq
      exact hno (hreq (.inl (by simpa using hq)) e [] hrob)
    · by_contra hq
      exact hno (hreq (.inr (by simpa using hq)) e [] hrob)
  have hturn := Core.serial_turn (p := p) hrob (Core.tick s.core (coreIn s i))
  revert hcomb
  generalize Core.waitForSerialize p s.core (Core.tick s.core (coreIn s i)) = c at hturn
  intro hcomb
  have hn := state_eq hcomb
  have hrv := restartValid_eq hcomb
  cases hturn with
  | wait hdone =>
    obtain ⟨hpend, hra⟩ := calm (by simp [hdone])
    simp only [Core.finish, Core.tick_state, hs] at hn
    simp only [Stage, hn]
    refine ⟨h.next hp hstill hsa hra, ?_⟩
    obtain ⟨hpend', hra'⟩ := calm_next (p := p) (i := i) hpend (by rw [hrv]; rfl)
    intro hno
    simp [hpend', hra'] at hno
  | flush hdone hop =>
    obtain ⟨hpend, hra⟩ := calm (by
      rintro ⟨-, h1, h2⟩
      obtain hop | hop := hop
      · exact h1 hop
      · rw [h2] at hop
        cases hop)
    obtain ⟨n, hr, hf⟩ := Core.requestFlush_frame (p := p) (s := s.core) e
      (Core.tick s.core (coreIn s i))
    have hrv' : (histNext p s i).core.regs.restartValid = false := by
      rw [hrv]
      simp only [Core.finish, Core.requestFlush]
      split
      · rfl
      split
      · rfl
      split <;> rfl
    simp only [Core.finish, hr, hf] at hn
    simp only [Stage, hn]
    refine ⟨h.next hp hstill hsa hra, ?_⟩
    obtain ⟨hpend', hra'⟩ := calm_next (p := p) (i := i) hpend hrv'
    intro hno
    simp [hpend', hra'] at hno
  | restart hdone hop hx hack =>
    have hra : s.restartAck = false := hgot.symm.trans hack
    simp only [Core.finish, Core.restartAfter, Core.tick_state, hs] at hn
    simp only [Stage, hn]
    refine ⟨h.next hp hstill hsa hra, fun _ b bs hb => ?_⟩
    obtain ⟨hl, -, hclr⟩ := still_turn (p := p) (i := i) hp hstill
    obtain ⟨fs, hfs⟩ := head_next hrob hdone hl hclr
    obtain ⟨rfl, -⟩ := List.cons.inj (hfs.symm.trans hb)
    exact ⟨hdone, hop, hx⟩
  | resume hdone hop hx hack =>
    simp only [Core.finish] at hn
    have hlive := h.resume (p := p) (i := i) hp hstill (by rw [hs]; rfl) hn (by rw [hcomb]; rfl)
      hrob hser hdone
    simp only [Stage, hn]
    exact .inl hlive

theorem stage_flush (hp : Placed s) (hs : s.core.regs.state = .cacheFlush) :
    Stage (histNext p s i) := by
  obtain ⟨h, hreq⟩ : Alone s ∧ (pending s = true ∨ s.restartAck = true →
      s.core.regs.l1iFlushComplete = true ∧ s.core.regs.l1dFlushComplete = true ∧
        s.core.regs.l2FlushComplete = true) := by simpa only [Stage, hs] using hp.stage
  have hsa : s.core.regs.state ≠ .active := by rw [hs]; decide
  have hstill : s.core.regs.state.still = true := by rw [hs]; rfl
  obtain ⟨e, hrob, hdone, hop⟩ : ∃ e, s.core.rob = [e] ∧ e.done = true ∧
      (e.uop.op = .cacheOp ∨ e.uop.op.isXflush = true) := by
    have hf := hp.sane.fits
    simpa only [Core.Fits, hs] using hf
  have hser : e.uop.serializingOp = true := by
    obtain hop | hop := hop
    · exact e.uop.ok.cacheOp hop
    · exact e.uop.ok.xflush hop
  have hcomb : turn p s i = Core.finish s.core (Core.cacheFlush s.core
      (Core.tick s.core (coreIn s i))) := by simp [turn_eq, comb, Core.arm, hs]
  have hgot : (Core.tick s.core (coreIn s i)).n.gotRestartAck = s.restartAck := by
    change (if s.core.regs.state = .active then false
      else s.core.regs.gotRestartAck || s.restartAck) = _
    rw [if_neg hsa, h.got, Bool.false_or]
  have hturn := Core.flush_turn hrob (Core.tick s.core (coreIn s i))
  revert hcomb
  generalize Core.cacheFlush s.core (Core.tick s.core (coreIn s i)) = c at hturn
  intro hcomb
  have hn := state_eq hcomb
  have hrv := restartValid_eq hcomb
  cases hturn with
  | wait hall =>
    -- nothing is asked for before all caches are flushed
    have calm : ¬ (pending s = true ∨ s.restartAck = true) := by
      intro hq
      obtain ⟨h1, h2, h3⟩ := hreq hq
      simp [Core.allFlushed, Core.tick, h1, h2, h3] at hall
    have hpend : pending s = false := by
      by_contra hq
      exact calm (.inl (by simpa using hq))
    have hra : s.restartAck = false := by
      by_contra hq
      exact calm (.inr (by simpa using hq))
    simp only [Core.finish, Core.tick_state, hs] at hn
    simp only [Stage, hn]
    refine ⟨h.next hp hstill hsa hra, ?_⟩
    obtain ⟨hpend', hra'⟩ := calm_next (p := p) (i := i) hpend (by rw [hrv]; rfl)
    intro hno
    simp [hpend', hra'] at hno
  | restart hall hack =>
    have hra : s.restartAck = false := hgot.symm.trans hack
    simp only [Core.finish, Core.restartAfter, Core.tick_state, hs] at hn
    simp only [Stage, hn]
    refine ⟨h.next hp hstill hsa hra, fun _ => ?_⟩
    simp only [Core.allFlushed, Bool.and_eq_true] at hall
    have hregs : (histNext p s i).core.regs = (turn p s i).n := rfl
    rw [hregs, hcomb]
    exact ⟨hall.1.1, hall.1.2, hall.2⟩
  | resume hall hack n hreg =>
    simp only [Core.finish, hreg] at hn
    have hlive := h.resume (p := p) (i := i) hp hstill (by rw [hs]; rfl) hn (by rw [hcomb]; rfl)
      hrob hser hdone
    simp only [Stage, hn]
    exact .inl hlive

/-- The slot of a mispredicted branch serializes. -/
theorem stage_slot (hp : Placed s) (hs : s.core.regs.state = .serializeInFaultedDelaySlot ∨
    s.core.regs.state = .waitForSerializeInFaultedDelaySlot) : Stage (histNext p s i) := by
  have h : Stopped s := by
    have hst := hp.stage
    obtain hs | hs := hs <;> simpa only [Stage, hs] using hst
  obtain hs | hs := hs
  · obtain hc | ⟨-, hc⟩ := Core.alone_turn (p := p) (i := coreIn s i) (.inr ⟨hs, rfl⟩) <;>
      rw [← turn_eq] at hc
    · have hn := state_eq hc
      simp only [Core.finish, Core.tick_state, hs] at hn
      simp only [Stage, hn]
      exact h.next (by simp [hc, Core.finish, Core.leaving]) (by rw [hc]; rfl)
        (by rw [restartValid_eq hc]; rfl)
    · have hn := state_eq hc
      simp only [Core.finish] at hn
      simp only [Stage, hn]
      exact h.next (by simp [hc, Core.finish, Core.leaving]) (by rw [hc]; rfl)
        (by rw [restartValid_eq hc]; rfl)
  · obtain ⟨hl, -, hclr⟩ := still_turn (p := p) (i := i) hp (by rw [hs]; rfl)
    have hcomb : turn p s i = Core.finish s.core (Core.waitInSlot s.core
        (Core.tick s.core (coreIn s i))) := by simp [turn_eq, comb, Core.arm, hs]
    have hrv : (histNext p s i).core.regs.restartValid = false := by
      rw [restartValid_eq hcomb]
      simp only [Core.finish, Core.waitInSlot]
      split
      · split
        · split <;> rfl
        · rfl
      · rfl
    have hnext := h.next hl hclr hrv
    have hmem := Core.state_next (p := p) (i := coreIn s i) hp.sane.rob hp.sane.fits
    simp only [hs, FsmState.succs, List.mem_cons, List.not_mem_nil, or_false] at hmem
    obtain hn | hn := hmem
    · have hn : (histNext p s i).core.regs.state = .waitForSerializeInFaultedDelaySlot := hn
      simpa only [Stage, hn] using hnext
    · have hn : (histNext p s i).core.regs.state = .active := hn
      simp only [Stage, hn]
      exact .inr hnext

/-- The initial flush, and the wait for the first request. -/
theorem stage_boot (hp : Placed s) (hs : s.core.regs.state = .flushForHalt ∨
    s.core.regs.state = .halt) : Stage (histNext p s i) := by
  obtain ⟨h, hpend, hra⟩ : Boot s ∧ pending s = false ∧ s.restartAck = false := by
    have hst := hp.stage
    obtain hs | hs := hs <;> simpa only [Stage, hs] using hst
  have hnext : Boot (histNext p s i) := by
    obtain hs | hs := hs <;> exact h.next hp (by rw [hs]; rfl) (by rw [hs]; decide) hra
  obtain hs | hs := hs
  · have hcomb : turn p s i = Core.finish s.core (Core.flushForHalt
        (Core.tick s.core (coreIn s i))) := by simp [turn_eq, comb, Core.arm, hs]
    have hrv : (histNext p s i).core.regs.restartValid = false := by
      rw [restartValid_eq hcomb]
      simp only [Core.finish, Core.flushForHalt]
      split <;> rfl
    have hcalm := calm_next (p := p) (i := i) hpend hrv
    have hmem := Core.state_next (p := p) (i := coreIn s i) hp.sane.rob hp.sane.fits
    simp only [hs, FsmState.succs, List.mem_cons, List.not_mem_nil, or_false] at hmem
    obtain hn | hn := hmem
    · have hn : (histNext p s i).core.regs.state = .flushForHalt := hn
      simp only [Stage, hn]
      exact ⟨hnext, hcalm⟩
    · have hn : (histNext p s i).core.regs.state = .halt := hn
      simp only [Stage, hn]
      exact ⟨hnext, hcalm⟩
  · have hcomb : turn p s i = Core.finish s.core (Core.halt (coreIn s i)
        (Core.tick s.core (coreIn s i))) := by simp [turn_eq, comb, Core.arm, hs]
    have hn := state_eq hcomb
    have hrv := restartValid_eq hcomb
    simp only [Core.finish, Core.halt] at hn hrv
    split at hn
    next => simpa only [Stage, hn] using hnext
    next hr =>
      rw [if_neg hr] at hrv
      simp only [Core.tick_state, hs] at hn
      simp only [Stage, hn]
      exact ⟨hnext, calm_next (p := p) (i := i) hpend (by rw [hrv]; rfl)⟩

theorem stage_first (hp : Placed s) (hs : s.core.regs.state = .haltWaitForRestart) :
    Stage (histNext p s i) := by
  have h : Boot s := by simpa only [Stage, hs] using hp.stage
  have hrob : s.core.rob = [] := by
    have hf := hp.sane.fits
    simpa only [Core.Fits, hs] using hf
  cases hra : s.restartAck with
  | false =>
    have hn := stays_unacked (p := p) (i := i) hp.sane (.inr rfl) hs h.got hra
    simp only [Stage, hn]
    exact h.next hp (by rw [hs]; rfl) (by rw [hs]; decide) hra
  | true =>
    have hcomb : turn p s i = Core.finish s.core (Core.haltWaitForRestart
        (Core.tick s.core (coreIn s i))) := by simp [turn_eq, comb, Core.arm, hs]
    have hgot : (Core.tick s.core (coreIn s i)).n.gotRestartAck = true := by
      change (if s.core.regs.state = .active then false
        else s.core.regs.gotRestartAck || s.restartAck) = _
      rw [if_neg (by rw [hs]; decide), hra, Bool.or_true]
    have hn := state_eq hcomb
    simp only [Core.finish, Core.haltWaitForRestart, hgot, if_true] at hn
    simp only [Stage, hn]
    exact .inl (h.resume hp hrob hs hra)

/-- **One cycle.**  What is on the way stays what it is in each state of the core. -/
theorem stage_next (hp : Placed s) (hstale : ¬ StaleAck s i) : Stage (histNext p s i) := by
  cases hs : s.core.regs.state with
  | active => exact stage_active hp hs
  | drain => exact stage_drain hp hs
  | archFault => exact stage_archFault hp hs
  | writeEpc => exact stage_exception hp (.inl hs)
  | exceptionDrain => exact stage_exception hp (.inr hs)
  | rat => exact stage_rat hp hs hstale
  | allocForSerialize => exact stage_allocate hp hs
  | waitForSerializeAndRestart => exact stage_wait hp hs
  | cacheFlush => exact stage_flush hp hs
  | serializeInFaultedDelaySlot => exact stage_slot hp (.inl hs)
  | waitForSerializeInFaultedDelaySlot => exact stage_slot hp (.inr hs)
  | flushForHalt => exact stage_boot hp (.inl hs)
  | halt => exact stage_boot hp (.inr hs)
  | haltWaitForRestart => exact stage_first hp hs
  | dead =>
    have hst := hp.stage
    simp only [Stage, hs] at hst

theorem placed_reset (tlb : Fin Iss.numTlbEntries → Mmu.TlbStored)
    (micro : Fin Mmu.numUitlbEntries → Mmu.MicroEntry) : Placed (histReset tlb micro) where
  sane := Core.sane_reset
  links := links_reset tlb micro
  sync := sync_reset tlb micro
  stage := ⟨boot_reset tlb micro, rfl, rfl⟩

theorem placed_next (hp : Placed s) (hstale : ¬ StaleAck s i) : Placed (histNext p s i) where
  sane := Core.sane_next hp.sane
  links := links_next hp.links
  sync := by
    refine sync_next hp.sync hp.sane ?_ ?_
    · intro hs
      have hst := hp.stage
      obtain hs | hs := hs
      · simp only [Stage, hs] at hst
        exact hst.1.got
      · simp only [Stage, hs] at hst
        exact hst.got
    · intro hs hpend e es hrob
      have hst := hp.stage
      simp only [Stage, hs] at hst
      exact (hst.2 (.inl hpend) e es hrob).2
  stage := stage_next hp hstale

end Step

end Frontend

end R9999
