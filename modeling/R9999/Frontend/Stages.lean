import R9999.Frontend.Sync

/-!
# What is on the way between fetch and retirement

In `ACTIVE`, what has left the reorder buffer since the restart, what is in it, in the decode
queue and in the fetch queue is what was fetched, in order.  When a faulting entry is at the
head, what has left is still the beginning of what was fetched, and nothing behind the
entry will leave on the path.  From the acknowledge on, what is in the fetch queue is all
that was fetched, and the rest of the reorder buffer is from before.
-/

namespace R9999

namespace Core

variable {p : Params} {s : State} {i : Input}

/-- `ACTIVE` clears no queue. -/
theorem clrDq_active (hs : s.regs.state = .active) : (comb p s i).clrDq = false := by
  obtain ⟨c, hturn, hcomb⟩ := comb_active (p := p) (i := i) hs
  rw [hcomb]
  have hal : (allocate p s i (tick s i)).clrDq = false := by
    obtain ⟨-, h⟩ | ⟨-, -, h⟩ | ⟨-, h⟩ :=
      allocate_cases (p := p) (s := s) (i := i) (tick s i) <;> rw [h] <;> rfl
  cases hturn with
  | detour => rfl
  | fault e es hrob hdone hfault harch => simp [finish, faultedHead, harch]
  | restart e es hrob hdone hfault harch => simp [finish, faultedHead, harch]
  | retire e es => simpa [finish] using hal
  | wait => exact hal

/-- What is allocated in `ACTIVE` does not serialize. -/
theorem newEntries_plain (hok : RobOk s) (hf : Fits s) (hs : s.regs.state = .active) :
    ∀ e ∈ newEntries s i (comb p s i), e.uop.serializingOp = false := by
  intro e he
  obtain ⟨u, d, t, rfl, ha, hu⟩ := mem_newEntries he
  by_contra hser
  change ¬ u.serializingOp = false at hser
  obtain ⟨hst, -⟩ := new_serial hok hf ha hu (by simpa using hser)
  simp [hs] at hst

end Core

namespace Frontend

open Core (Entry Params Comb Sane FsmState comb)

/-- The instructions fetched since the restart that have been allocated, in program order. -/
def program (s : HistState) : List (Entry × FetchInsn) :=
  s.ledger.left ++ (s.core.rob.zip s.robTags).drop s.ledger.older

/-- The core has seen the acknowledge, or sees it now. -/
def acked (s : HistState) : Bool := s.core.regs.gotRestartAck || s.restartAck

/-- What is on the way in `ACTIVE`. -/
structure Live (s : HistState) : Prop where
  whole : s.ledger.left.map Prod.snd ++ (s.robTags.drop s.ledger.older ++ (s.dqTags ++ s.fq)) =
    s.ledger.fetched
  left : ∀ x ∈ s.ledger.left, onPath x = true
  /-- What is from before the restart has only to retire. -/
  older : ∀ (k : Nat) (e : Entry), k < s.ledger.older → s.core.rob[k]? = some e →
    e.done = true ∧ e.faulted = false ∧ e.uop.isBr = false
  plain : ∀ (k : Nat) (e : Entry), s.ledger.older ≤ k → s.core.rob[k]? = some e →
    e.uop.serializingOp = false
  fresh : pending s = true ∨ s.restartAck = true → s.ledger.fetched = []

/-- A faulting entry is at the head, and no restart is asked for yet. -/
structure Stopped (s : HistState) : Prop where
  calm : pending s = false ∧ s.restartAck = false
  head : ∃ e es, s.core.rob = e :: es ∧ e.done = true ∧ e.faulted = true
  older : s.ledger.older = 0
  left : ∀ x ∈ s.ledger.left, onPath x = true
  pre : s.ledger.left.map Prod.snd <+: s.ledger.fetched

/-- The faulting entry has left. -/
structure Redirected (s : HistState) : Prop where
  /-- The fetch has begun again. -/
  again : acked s = true → s.fq = s.ledger.fetched ∧ s.ledger.left = [] ∧
    s.ledger.older = s.core.rob.length
  broken : acked s = false → s.ledger.older = 0 ∧
    (∃ x ∈ s.ledger.left, onPath x = false) ∧
      (s.ledger.left.takeWhile onPath).map Prod.snd <+: s.ledger.fetched

/-- A serializing operation is to be allocated. -/
structure Ready (s : HistState) : Prop where
  calm : pending s = false ∧ s.restartAck = false
  got : s.core.regs.gotRestartAck = false
  older : s.ledger.older = 0
  left : ∀ x ∈ s.ledger.left, onPath x = true
  pre : s.ledger.left.map Prod.snd ++ s.dqTags.take 1 <+: s.ledger.fetched

/-- A serializing operation is alone in the reorder buffer. -/
structure Alone (s : HistState) : Prop where
  got : s.core.regs.gotRestartAck = false
  held : s.restartAck = false → s.ledger.older = 0 ∧ (∀ x ∈ s.ledger.left, onPath x = true) ∧
    s.ledger.left.map Prod.snd ++ s.robTags <+: s.ledger.fetched

/-- The first fetch has not begun. -/
structure Boot (s : HistState) : Prop where
  got : s.core.regs.gotRestartAck = false
  dq : s.core.dq = []
  fq : s.fq = []
  fetched : s.ledger.fetched = []
  left : s.ledger.left = []
  running : s.restartAck = false → s.fetch.running = false

/-- What is on the way in each state of the core. -/
def Stage (s : HistState) : Prop :=
  match s.core.regs.state with
  | .flushForHalt | .halt => Boot s ∧ pending s = false ∧ s.restartAck = false
  | .haltWaitForRestart => Boot s
  | .active => Live s ∨ Stopped s
  | .serializeInFaultedDelaySlot | .waitForSerializeInFaultedDelaySlot => Stopped s
  | .archFault =>
    (Stopped s ∧ s.core.regs.gotRestartAck = false ∨ Redirected s) ∧
      ∃ e es, s.core.rob = e :: es ∧ e.archFault = true
  | .drain | .writeEpc | .exceptionDrain | .rat => Redirected s
  | .allocForSerialize => Ready s
  | .waitForSerializeAndRestart =>
    Alone s ∧ (pending s = true ∨ s.restartAck = true → ∀ e es, s.core.rob = e :: es →
      e.done = true ∧ e.uop.op ≠ .cacheOp ∧ e.uop.op.isXflush = false)
  | .cacheFlush =>
    Alone s ∧ (pending s = true ∨ s.restartAck = true → s.core.regs.l1iFlushComplete = true ∧
      s.core.regs.l1dFlushComplete = true ∧ s.core.regs.l2FlushComplete = true)
  | .dead => False

/-- The invariants of every run. -/
structure Placed (s : HistState) : Prop where
  sane : Sane s.core
  links : Links s
  sync : Sync s
  stage : Stage s

section Step

variable {p : Params} {s : HistState} {i : HistIn}

/-! ## What a cycle moves -/

theorem leaves_getElem? {c : Comb} {k : Nat} {x : Entry × FetchInsn}
    (h : (leaves s c)[k]? = some x) : k < Core.leaving c ∧ s.core.rob[k]? = some x.1 ∧
      s.robTags[k]? = some x.2 := by
  rw [leaves, List.getElem?_take] at h
  split at h
  next hk => exact ⟨hk, List.getElem?_zip_eq_some.mp h⟩
  next => cases h

theorem leaves_nil {c : Comb} (h : Core.leaving c = 0) : leaves s c = [] := by
  rw [leaves, h, List.take_zero]

theorem turn_eq : turn p s i = comb p s.core (coreIn s i) := rfl

theorem robTags_next (h : (turn p s i).clrRob = false) : (histNext p s i).robTags =
    s.robTags.drop (Core.leaving (turn p s i)) ++ s.dqTags.take (Core.allocating (turn p s i)) := by
  change (if (turn p s i).clrRob then [] else _) = _
  rw [h]
  exact if_neg Bool.false_ne_true

theorem dqTags_next (h : (turn p s i).clrDq = false) : (histNext p s i).dqTags =
    s.dqTags.drop (Core.allocating (turn p s i)) ++ s.fq.take (decoding p s i) := by
  change (if (turn p s i).clrDq then [] else _) = _
  rw [h]
  exact if_neg Bool.false_ne_true

theorem dqTags_clear (h : (turn p s i).clrDq = true) : (histNext p s i).dqTags = [] := by
  change (if (turn p s i).clrDq then [] else _) = _
  rw [h]
  exact if_pos rfl

theorem fq_ack (h : Sync s) (hack : ack s i = true) : (histNext p s i).fq = [] := by
  obtain ⟨-, hclear⟩ | ⟨hno, -⟩ := clears_cases (i := i) h
  · exact if_pos hclear
  · rw [hack] at hno
    cases hno

/-- Only the core's own flush clears the fetch queue without an acknowledge. -/
theorem fq_go (h : Sync s) (hack : ack s i = false) (hs : s.core.regs.state ≠ .cacheFlush) :
    (histNext p s i).fq = s.fq.drop (dropping p s i) ++ pushes s i := by
  obtain ⟨hno, -⟩ | ⟨-, hclear | hst⟩ := clears_cases (i := i) h
  · rw [hack] at hno
    cases hno
  · exact if_neg (by simp [hclear])
  · exact (hs hst).elim

theorem ack_of_calm (h : pending s = false) : ack s i = false := by
  by_contra hack
  rw [pending_of_ack (by simpa using hack)] at h
  cases h

/-- Without a request, none is there in the next cycle. -/
theorem calm_next (h : pending s = false)
    (hrv : (histNext p s i).core.regs.restartValid = false) :
    pending (histNext p s i) = false ∧ (histNext p s i).restartAck = false := by
  refine ⟨?_, ack_of_calm h⟩
  rw [pending, hrv, restartReq_next, h]
  rfl

theorem got_next : (histNext p s i).core.regs.gotRestartAck =
    if s.core.regs.state = .active then false else acked s := Core.gotRestartAck_next

/-- Nothing is fetched behind an acknowledge. -/
theorem fetched_behind (h : Sync s) (hra : s.restartAck = true) :
    (histNext p s i).ledger.fetched = [] ∧ (histNext p s i).fq = [] := by
  obtain ⟨hreq, -, hfetched, -, hfq, -⟩ := h.acked hra
  have hpush : pushes s i = [] := by
    obtain hp | ⟨hr, -⟩ := pushes_cases (s := s) (i := i)
    · exact hp
    · rw [hreq] at hr
      cases hr
  have hfq' : (histNext p s i).fq = [] := by
    change (if s.fetch.clears (fetchIn s i) then [] else _) = _
    split
    · rfl
    · rw [hfq, hpush, List.drop_nil, List.append_nil]
  cases hack : ack s i with
  | true =>
    rw [ledger_ack hack]
    exact ⟨rfl, hfq'⟩
  | false =>
    rw [ledger_go hack]
    exact ⟨by rw [hfetched, hpush, List.append_nil], hfq'⟩

/-! ## `ACTIVE` -/

section Active

/-- With a faulting entry at the head nothing that was fetched leaves any more. -/
theorem Live.stopped (h : Live s) (hl : Links s) {e : Entry} {es : List Entry}
    (hrob : s.core.rob = e :: es) (hdone : e.done = true) (hfault : e.faulted = true) :
    Stopped s := by
  have holder : s.ledger.older = 0 := by
    by_contra hne
    have hq := (h.older 0 e (Nat.pos_of_ne_zero hne) (by simp [hrob])).2.1
    rw [hfault] at hq
    cases hq
  have hne : s.ledger.fetched ≠ [] := by
    intro hno
    have hw := h.whole
    rw [hno, holder, List.drop_zero, List.append_eq_nil_iff, List.append_eq_nil_iff] at hw
    have hlen := hl.rob.length_eq
    rw [hw.2.1, hrob] at hlen
    cases hlen
  have hcalm : pending s = false ∧ s.restartAck = false := by
    constructor
    · by_contra hp
      exact hne (h.fresh (.inl (by simpa using hp)))
    · by_contra hp
      exact hne (h.fresh (.inr (by simpa using hp)))
  refine ⟨hcalm, ⟨e, es, hrob, hdone, hfault⟩, holder, h.left, ?_⟩
  rw [← h.whole]
  exact List.prefix_append _ _

variable (h : Live s) (hp : Placed s) (hs : s.core.regs.state = .active)
  (hhead : ∀ e es, s.core.rob = e :: es → e.done = true → e.faulted = false)

include hp

include h in
/-- What is from before the restart stays as it is. -/
theorem Live.older_next {k : Nat} {e : Entry}
    (hk : k < s.ledger.older - Core.leaving (turn p s i))
    (he : (histNext p s i).core.rob[k]? = some e) :
    e.done = true ∧ e.faulted = false ∧ e.uop.isBr = false := by
  have hle := hp.sync.older
  obtain ⟨-, ⟨b, hb, rfl⟩ | ⟨hge, -⟩⟩ := Core.next_getElem? hp.sane.rob hp.sane.fits he
  · rw [← turn_eq] at hb ⊢
    obtain ⟨hdone, hfault, hbr⟩ := h.older _ b (by omega) hb
    rw [Entry.next_of_done hdone]
    exact ⟨hdone, hfault, hbr⟩
  · rw [← turn_eq] at hge
    omega

include hs

theorem active_clr : (turn p s i).clrRob = false ∧ (turn p s i).clrDq = false := by
  refine ⟨?_, Core.clrDq_active hs⟩
  by_contra hc
  have hrat := Core.clrRob_cases hp.sane.rob hp.sane.fits (by simpa [turn_eq] using hc)
  rw [hs] at hrat
  cases hrat

include hhead in
/-- What leaves is complete and has no fault. -/
theorem active_leaves {k : Nat} {x : Entry × FetchInsn}
    (hx : (leaves s (turn p s i))[k]? = some x) : x.1.done = true ∧ x.1.faulted = false := by
  obtain ⟨hk, hrob, -⟩ := leaves_getElem? hx
  have hexit := Core.exit_cases (p := p) (i := coreIn s i) hp.sane.rob hp.sane.fits
  rw [turn_eq] at hk
  cases hexit with
  | none hl => omega
  | fault hst =>
    rw [hs] at hst
    cases hst
  | one e es hes hdone _ _ hl =>
    have hk0 : k = 0 := by omega
    rw [hk0, hes, List.getElem?_cons_zero, Option.some.injEq] at hrob
    rw [← hrob]
    exact ⟨hdone, hhead e es hes hdone⟩
  | two e f es hes hdone hdone2 hfault hfault2 _ _ hl =>
    obtain rfl | rfl : k = 0 ∨ k = 1 := by omega
    · rw [hes, List.getElem?_cons_zero, Option.some.injEq] at hrob
      rw [← hrob]
      exact ⟨hdone, hfault⟩
    · rw [hes, List.getElem?_cons_succ, List.getElem?_cons_zero, Option.some.injEq] at hrob
      rw [← hrob]
      exact ⟨hdone2, hfault2⟩

include h hhead in
/-- What leaves of the path stays on it. -/
theorem Live.left_next : ∀ x ∈ s.ledger.left ++ (leaves s (turn p s i)).drop s.ledger.older,
    onPath x = true := by
  intro x hx
  obtain hx | hx := List.mem_append.mp hx
  · exact h.left x hx
  · obtain ⟨k, hk⟩ := List.mem_iff_getElem?.mp hx
    rw [List.getElem?_drop] at hk
    obtain ⟨hdone, hfault⟩ := active_leaves hp hs hhead hk
    obtain ⟨-, hrob, -⟩ := leaves_getElem? hk
    have hser := h.plain _ _ (Nat.le_add_right _ k) hrob
    have hx : x.1.uop.op.isXflush = false := by
      by_contra hx
      rw [x.1.uop.ok.xflush (by simpa using hx)] at hser
      cases hser
    simp [onPath, hdone, hfault, hx]

include h in
/-- The queues hand on what they hold. -/
theorem Live.whole_next :
    (s.ledger.left ++ (leaves s (turn p s i)).drop s.ledger.older).map Prod.snd ++
      ((histNext p s i).robTags.drop (s.ledger.older - Core.leaving (turn p s i)) ++
        ((histNext p s i).dqTags ++ s.fq.drop (dropping p s i))) = s.ledger.fetched := by
  obtain ⟨hclr, hclrDq⟩ := active_clr (p := p) (i := i) hp hs
  have hlen : s.ledger.older - Core.leaving (turn p s i) ≤
      (s.robTags.drop (Core.leaving (turn p s i))).length := by
    have hle := hp.sync.older
    rw [List.length_drop, ← hp.links.rob.length_eq]
    omega
  have hdrop : dropping p s i = decoding p s i := if_pos hs
  rw [robTags_next hclr, dqTags_next hclrDq, hdrop, List.map_append, List.map_drop,
    leaves_snd hp.links, List.drop_append_of_le_length hlen]
  -- each queue joins what it gives away with what it keeps
  calc _ = s.ledger.left.map Prod.snd ++
        (((s.robTags.take (Core.leaving (turn p s i))).drop s.ledger.older ++
          (s.robTags.drop (Core.leaving (turn p s i))).drop
            (s.ledger.older - Core.leaving (turn p s i))) ++
        ((s.dqTags.take (Core.allocating (turn p s i)) ++
          s.dqTags.drop (Core.allocating (turn p s i))) ++
        (s.fq.take (decoding p s i) ++ s.fq.drop (decoding p s i)))) := by
        simp only [List.append_assoc]
    _ = _ := by
        rw [Hw.drop_take_append, List.take_append_drop, List.take_append_drop, h.whole]

include h in
theorem Live.plain_next {k : Nat} {e : Entry}
    (hk : s.ledger.older - Core.leaving (turn p s i) ≤ k)
    (he : (histNext p s i).core.rob[k]? = some e) : e.uop.serializingOp = false := by
  obtain ⟨-, ⟨b, hb, rfl⟩ | ⟨-, hnew⟩⟩ := Core.next_getElem? hp.sane.rob hp.sane.fits he
  · rw [← turn_eq] at hb ⊢
    rw [Entry.next_uop]
    exact h.plain _ b (by omega) hb
  · exact Core.newEntries_plain hp.sane.rob hp.sane.fits hs e (List.mem_of_getElem? hnew)

include h hhead in
/-- **The path in `ACTIVE`.**  As long as the head has no fault, what is on the way goes on
being what was fetched. -/
theorem Live.next (hrv : (histNext p s i).core.regs.restartValid = false) :
    Live (histNext p s i) := by
  have hwhole := h.whole_next (p := p) (i := i) hp hs
  obtain ⟨hclr, -⟩ := active_clr (p := p) (i := i) hp hs
  cases hack : ack s i with
  | true =>
    have hnil := h.fresh (.inl (pending_of_ack hack))
    have hlen := hp.links.rob.length_eq
    rw [hnil, List.append_eq_nil_iff, List.append_eq_nil_iff, List.append_eq_nil_iff] at hwhole
    obtain ⟨-, hrob, hdq, -⟩ := hwhole
    have hlinks := (links_next (p := p) (i := i) hp.links).rob.length_eq
    have hold : (histNext p s i).core.rob.length ≤
        s.ledger.older - Core.leaving (turn p s i) := by
      rw [hlinks]
      exact List.drop_eq_nil_iff.mp hrob
    refine ⟨?_, ?_, ?_, ?_, ?_⟩
    · rw [ledger_ack hack, hdq, fq_ack hp.sync hack]
      simp [hlinks]
    · rw [ledger_ack hack]
      intro x hx
      cases hx
    · rw [ledger_ack hack]
      intro k e hk he
      exact h.older_next hp (lt_of_lt_of_le hk hold) he
    · rw [ledger_ack hack]
      intro k e hk he
      have hlt := (List.getElem?_eq_some_iff.mp he).1
      exact absurd hlt (Nat.not_lt.mpr hk)
    · rw [ledger_ack hack]
      exact fun _ => rfl
  | false =>
    have hfq := fq_go (p := p) hp.sync hack (by rw [hs]; decide)
    refine ⟨?_, ?_, ?_, ?_, ?_⟩
    · rw [ledger_go hack, hfq]
      dsimp only
      rw [hclr, if_neg Bool.false_ne_true, ← hwhole]
      simp only [List.append_assoc]
    · rw [ledger_go hack]
      exact h.left_next hp hs hhead
    · rw [ledger_go hack]
      dsimp only
      rw [hclr, if_neg Bool.false_ne_true]
      intro k e hk he
      exact h.older_next hp hk he
    · rw [ledger_go hack]
      dsimp only
      rw [hclr, if_neg Bool.false_ne_true]
      intro k e hk he
      exact h.plain_next hp hs hk he
    · intro hfresh
      rw [ledger_go hack]
      have hpend : pending s = true := by
        obtain hq | hq := hfresh
        · rw [pending, hrv, restartReq_next, hack, Bool.not_false, Bool.and_true,
            Bool.false_or] at hq
          exact hq
        · rw [show (histNext p s i).restartAck = false from hack] at hq
          cases hq
      dsimp only
      rw [h.fresh (.inl hpend), pushes_of_pending hpend, List.append_nil]

end Active

end Step

end Frontend

end R9999
