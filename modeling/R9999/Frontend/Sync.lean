import R9999.Frontend.Links

/-!
# The restart handshake

The core asks for a restart in one cycle, or in every cycle while it waits, and goes on when
it has seen the acknowledge.  What it has seen is forgotten in `ACTIVE` only.
-/

namespace R9999

namespace Core

variable {p : Params} {s : State} {i : Input}

/-- The acknowledge is kept in every state but `ACTIVE`. -/
theorem gotRestartAck_next : (comb p s i).n.gotRestartAck =
    if s.regs.state = .active then false else s.regs.gotRestartAck || i.restartAck := by
  have htick : (tick s i).n.gotRestartAck =
      if s.regs.state = .active then false else s.regs.gotRestartAck || i.restartAck := rfl
  rw [← htick]
  have alone {w : FsmState}
      (hs : s.regs.state = .allocForSerialize ∧ w = .waitForSerializeAndRestart ∨
        s.regs.state = .serializeInFaultedDelaySlot ∧ w = .waitForSerializeInFaultedDelaySlot) :
      (comb p s i).n.gotRestartAck = (tick s i).n.gotRestartAck := by
    obtain hc | ⟨-, hc⟩ := alone_turn (p := p) (i := i) hs <;> rw [hc] <;> rfl
  cases hs : s.regs.state with
  | active =>
    obtain ⟨c, hturn, hcomb⟩ := comb_active (p := p) (i := i) hs
    rw [hcomb]
    have hal : (allocate p s i (tick s i)).n.gotRestartAck = (tick s i).n.gotRestartAck := by
      obtain ⟨-, h⟩ | ⟨-, -, h⟩ | ⟨-, h⟩ :=
        allocate_cases (p := p) (s := s) (i := i) (tick s i) <;> rw [h]
    cases hturn with
    | detour => rfl
    | fault e es hrob hdone hfault harch => simp [finish, faultedHead, harch]
    | restart e es hrob hdone hfault harch => simp [finish, faultedHead, harch]
    | retire e es => simpa [finish] using hal
    | wait => exact hal
  | drain =>
    obtain ⟨c, hturn, hcomb⟩ := comb_drain (p := p) (i := i) hs
    rw [hcomb]
    cases hturn <;> rfl
  | rat =>
    simp only [comb_rat hs, finish, rat]
    split <;> rfl
  | archFault =>
    simp only [comb_archFault hs, finish, archFault]
    split
    · rfl
    · dsimp only
      split <;> rfl
  | allocForSerialize => exact alone (.inl ⟨hs, rfl⟩)
  | serializeInFaultedDelaySlot => exact alone (.inr ⟨hs, rfl⟩)
  | waitForSerializeAndRestart =>
    simp only [comb, arm, hs, finish, waitForSerialize]
    split
    · rfl
    split
    · split
      · unfold requestFlush
        dsimp only
        split
        · rfl
        split
        · rfl
        split <;> rfl
      · split <;> rfl
    · rfl
  | cacheFlush =>
    have hcomb : comb p s i = finish s (cacheFlush s (tick s i)) := by simp [comb, arm, hs]
    rw [hcomb]
    cases hrob : s.rob with
    | nil =>
      simp only [cacheFlush, hrob]
      rfl
    | cons e es =>
      have hturn := flush_turn hrob (tick s i)
      generalize cacheFlush s (tick s i) = c at hturn
      cases hturn with
      | wait => rfl
      | restart => rfl
      | resume _ _ n hn =>
        simp only [finish, hn]
        rfl
  | waitForSerializeInFaultedDelaySlot =>
    simp only [comb, arm, hs, finish, waitInSlot]
    split
    · split
      · split <;> rfl
      · rfl
    · rfl
  | exceptionDrain =>
    simp only [comb, arm, hs, finish, exceptionDrain]
    split <;> rfl
  | flushForHalt =>
    simp only [comb, arm, hs, finish, flushForHalt]
    split <;> rfl
  | halt =>
    simp only [comb, arm, hs, finish, halt]
    split <;> rfl
  | haltWaitForRestart =>
    simp only [comb, arm, hs, finish, haltWaitForRestart]
    split <;> rfl
  | writeEpc => simp only [comb, arm, hs, finish, writeEpc]
  | dead => simp only [comb, arm, hs, finish]

/-- The flush of a line is asked for by a cache operation that is complete. -/
theorem flushLine_next (h : (comb p s i).n.flushLineReqL1i = true) :
    s.regs.state = .waitForSerializeAndRestart ∧ (comb p s i).n.state = .cacheFlush ∧
      ∃ e es, s.rob = e :: es ∧ e.done = true ∧
        (e.uop.op = .cacheOp ∨ e.uop.op.isXflush = true) := by
  have alone {w : FsmState}
      (hs : s.regs.state = .allocForSerialize ∧ w = .waitForSerializeAndRestart ∨
        s.regs.state = .serializeInFaultedDelaySlot ∧ w = .waitForSerializeInFaultedDelaySlot) :
      (comb p s i).n.flushLineReqL1i = false := by
    obtain hc | ⟨-, hc⟩ := alone_turn (p := p) (i := i) hs <;> rw [hc] <;> rfl
  cases hs : s.regs.state with
  | active =>
    obtain ⟨c, hturn, hcomb⟩ := comb_active (p := p) (i := i) hs
    rw [hcomb] at h
    have hal : (allocate p s i (tick s i)).n.flushLineReqL1i = false := by
      obtain ⟨-, h⟩ | ⟨-, -, h⟩ | ⟨-, h⟩ :=
        allocate_cases (p := p) (s := s) (i := i) (tick s i) <;> rw [h] <;> rfl
    cases hturn with
    | detour => cases h
    | fault e es hrob hdone hfault harch => simp [finish, faultedHead, harch, tick] at h
    | restart e es hrob hdone hfault harch => simp [finish, faultedHead, harch, tick] at h
    | retire e es => simp [finish, hal] at h
    | wait => simp [finish, hal] at h
  | drain =>
    obtain ⟨c, hturn, hcomb⟩ := comb_drain (p := p) (i := i) hs
    rw [hcomb] at h
    cases hturn <;> cases h
  | rat =>
    simp only [comb_rat hs, finish, rat] at h
    split at h <;> cases h
  | archFault =>
    simp only [comb_archFault hs, finish, archFault] at h
    split at h
    · cases h
    · dsimp only at h
      split at h <;> cases h
  | allocForSerialize =>
    rw [alone (.inl ⟨hs, rfl⟩)] at h
    cases h
  | serializeInFaultedDelaySlot =>
    rw [alone (.inr ⟨hs, rfl⟩)] at h
    cases h
  | waitForSerializeAndRestart =>
    have hcomb : comb p s i = finish s (waitForSerialize p s (tick s i)) := by simp [comb, arm, hs]
    cases hrob : s.rob with
    | nil =>
      rw [hcomb] at h
      simp only [waitForSerialize, hrob] at h
      cases h
    | cons e es =>
      have hturn := serial_turn (p := p) hrob (tick s i)
      rw [hcomb] at h ⊢
      revert h
      generalize waitForSerialize p s (tick s i) = c at hturn
      intro h
      cases hturn with
      | wait => cases h
      | flush hdone hop =>
        obtain ⟨n, hr, hn⟩ := requestFlush_frame (p := p) (s := s) e (tick s i)
        exact ⟨rfl, by simp [finish, hr, hn], e, es, rfl, hdone, hop⟩
      | restart => cases h
      | resume => cases h
  | cacheFlush =>
    have hcomb : comb p s i = finish s (cacheFlush s (tick s i)) := by simp [comb, arm, hs]
    rw [hcomb] at h
    cases hrob : s.rob with
    | nil =>
      simp only [cacheFlush, hrob] at h
      cases h
    | cons e es =>
      have hturn := flush_turn hrob (tick s i)
      revert h
      generalize cacheFlush s (tick s i) = c at hturn
      intro h
      cases hturn with
      | wait => cases h
      | restart => cases h
      | resume _ _ n hn =>
        simp only [finish, hn] at h
        cases h
  | waitForSerializeInFaultedDelaySlot =>
    simp only [comb, arm, hs, finish, waitInSlot] at h
    split at h
    · split at h
      · split at h <;> cases h
      · cases h
    · cases h
  | exceptionDrain =>
    simp only [comb, arm, hs, finish, exceptionDrain] at h
    split at h <;> cases h
  | flushForHalt =>
    simp only [comb, arm, hs, finish, flushForHalt] at h
    split at h <;> cases h
  | halt =>
    simp only [comb, arm, hs, finish, halt] at h
    split at h <;> cases h
  | haltWaitForRestart =>
    simp only [comb, arm, hs, finish, haltWaitForRestart] at h
    split at h <;> cases h
  | writeEpc =>
    simp only [comb, arm, hs, finish, writeEpc] at h
    cases h
  | dead =>
    simp only [comb, arm, hs, finish] at h
    cases h

/-- The states that go on in `ACTIVE` when the restart is acknowledged. -/
def FsmState.awaits : FsmState → Bool
  | .rat | .waitForSerializeAndRestart | .cacheFlush | .haltWaitForRestart => true
  | _ => false

/-- They do not go on before. -/
theorem resume_acked (hs : s.regs.state.awaits = true) (hn : (next p s i).regs.state = .active) :
    s.regs.gotRestartAck = true ∨ i.restartAck = true := by
  have hgot : (tick s i).n.gotRestartAck = (s.regs.gotRestartAck || i.restartAck) := by
    change (if s.regs.state = .active then false else _) = _
    refine if_neg ?_
    intro h
    simp [h, FsmState.awaits] at hs
  suffices h : (tick s i).n.gotRestartAck = true by
    rw [hgot, Bool.or_eq_true] at h
    exact h
  by_contra hno
  have hno : (tick s i).n.gotRestartAck = false := by simpa using hno
  cases hst : s.regs.state with
  | rat =>
    change (comb p s i).n.state = .active at hn
    simp only [comb_rat hst, finish, rat, hno, Bool.false_eq_true, if_false, tick_state, hst] at hn
    cases hn
  | haltWaitForRestart =>
    change (comb p s i).n.state = .active at hn
    simp only [comb, arm, hst, finish, haltWaitForRestart, hno, Bool.false_eq_true, if_false,
      tick_state] at hn
    cases hn
  | waitForSerializeAndRestart =>
    have hcomb : comb p s i = finish s (waitForSerialize p s (tick s i)) := by
      simp [comb, arm, hst]
    change (comb p s i).n.state = .active at hn
    rw [hcomb] at hn
    cases hrob : s.rob with
    | nil =>
      simp only [waitForSerialize, hrob, finish, tick_state, hst] at hn
      cases hn
    | cons e es =>
      have hturn := serial_turn (p := p) hrob (tick s i)
      revert hn
      generalize waitForSerialize p s (tick s i) = c at hturn
      intro hn
      cases hturn with
      | wait =>
        simp only [finish, tick_state, hst] at hn
        cases hn
      | flush =>
        obtain ⟨n, hr, hf⟩ := requestFlush_frame (p := p) (s := s) e (tick s i)
        simp only [finish, hr, hf] at hn
        cases hn
      | restart =>
        simp only [finish, restartAfter, tick_state, hst] at hn
        cases hn
      | resume _ _ _ hack =>
        rw [hno] at hack
        cases hack
  | cacheFlush =>
    have hcomb : comb p s i = finish s (cacheFlush s (tick s i)) := by simp [comb, arm, hst]
    change (comb p s i).n.state = .active at hn
    rw [hcomb] at hn
    cases hrob : s.rob with
    | nil =>
      simp only [cacheFlush, hrob, finish, tick_state, hst] at hn
      cases hn
    | cons e es =>
      have hturn := flush_turn hrob (tick s i)
      revert hn
      generalize cacheFlush s (tick s i) = c at hturn
      intro hn
      cases hturn with
      | wait =>
        simp only [finish, tick_state, hst] at hn
        cases hn
      | restart =>
        simp only [finish, restartAfter, tick_state, hst] at hn
        cases hn
      | resume _ hack =>
        rw [hno] at hack
        cases hack
  | _ => simp [hst, FsmState.awaits] at hs

end Core

namespace Frontend

open Core (Entry Params Comb Sane comb)

/-- What both sides know of the restarts and of the flush of a line. -/
structure Sync (s : HistState) : Prop where
  older : s.ledger.older ≤ s.core.rob.length
  before : s.ledger.before ≤ s.ledger.fetched.length
  /-- In the cycle behind an acknowledge nothing has been fetched. -/
  acked : s.restartAck = true → s.fetch.req = false ∧ s.fetch.running = true ∧
    s.ledger.fetched = [] ∧ s.ledger.left = [] ∧ s.fq = [] ∧
      s.ledger.older = s.core.rob.length
  noFlush : s.fetch.flushReq = false
  /-- While the flush of a line is asked for, no restart is acknowledged. -/
  line : s.core.regs.flushLineReqL1i = true ∨ s.fetch.flineReq = true →
    s.core.regs.state = .cacheFlush ∧ s.fetch.running = true ∧ s.restartAck = false
  running : s.fetch.running = true ∨ s.core.regs.state = .flushForHalt ∨
    s.core.regs.state = .halt ∨ s.core.regs.state = .haltWaitForRestart ∨
      s.core.regs.state = .cacheFlush ∧ s.restartAck = false

section Step

variable {p : Params} {s : HistState} {i : HistIn}

theorem sync_reset (tlb : Fin Iss.numTlbEntries → Mmu.TlbStored)
    (micro : Fin Mmu.numUitlbEntries → Mmu.MicroEntry) : Sync (histReset tlb micro) where
  older := Nat.le_refl 0
  before := Nat.le_refl 0
  acked := by
    intro h
    cases h
  noFlush := rfl
  line := by
    intro h
    obtain h | h := h <;> cases h
  running := .inr (.inl rfl)

/-- The requests that the fetch control sees. -/
theorem base_eq : (s.fetch.base (fetchIn s i)).restartReq = pending s ∧
    (s.fetch.base (fetchIn s i)).flushReq = s.fetch.flushReq ∧
      (s.fetch.base (fetchIn s i)).flineReq =
        (s.fetch.flineReq || s.core.regs.flushLineReqL1i) :=
  ⟨rfl, Bool.or_false _, rfl⟩

/-- What the cycle does about the requests. -/
theorem handshake : s.fetch.Handshake (fetchIn s i) (histNext p s i).fetch :=
  Mmu.Fetch.tick_handshake s.fetch (fetchIn s i)

/-- A restart that is acknowledged was asked for. -/
theorem pending_of_ack (h : ack s i = true) : pending s = true := by
  have hh := handshake (p := Core.machine) (s := s) (i := i)
  cases hh with
  | wait hack => exact absurd (hack.symm.trans h) Bool.false_ne_true
  | flush hack => exact absurd (hack.symm.trans h) Bool.false_ne_true
  | restart _ _ hwas => exact hwas

/-- A request waits until it is acknowledged. -/
theorem restartReq_next : (histNext p s i).fetch.restartReq = (pending s && !ack s i) := by
  have hh := handshake (p := p) (s := s) (i := i)
  cases hh with
  | wait hack _ hr =>
    rw [hr, show ack s i = false from hack, Bool.not_false, Bool.and_true]
    rfl
  | flush hack _ _ _ hr =>
    rw [hr, show ack s i = false from hack, Bool.not_false, Bool.and_true]
    rfl
  | restart hack _ _ hr => rw [hr, show ack s i = true from hack, Bool.not_true, Bool.and_false]

/-- What is pushed was fetched while no restart waited. -/
theorem pushes_cases : pushes s i = [] ∨
    s.fetch.req = true ∧ pending s = false ∧ s.fetch.running = true ∧ ack s i = false := by
  by_cases hp : s.fetch.pushes (fetchIn s i) = .none
  · exact .inl (by simp [pushes, hp])
  · obtain ⟨hreq, hno, hrun⟩ := Mmu.Fetch.pushes_free hp
    have hno : pending s = false := hno
    refine .inr ⟨hreq, hno, hrun, ?_⟩
    by_contra hack
    rw [pending_of_ack (by simpa using hack)] at hno
    cases hno

theorem pushes_of_pending (h : pending s = true) : pushes s i = [] := by
  obtain hp | ⟨-, hno, -⟩ := pushes_cases (s := s) (i := i)
  · exact hp
  · rw [h] at hno
    cases hno

/-- The fetch queue is cleared by an acknowledge, or while the core waits for its flush. -/
theorem clears_cases (h : Sync s) : ack s i = true ∧ s.fetch.clears (fetchIn s i) = true ∨
    ack s i = false ∧ (s.fetch.clears (fetchIn s i) = false ∨ s.core.regs.state = .cacheFlush) := by
  have hh := handshake (p := Core.machine) (s := s) (i := i)
  cases hh with
  | wait hack hclear => exact .inr ⟨hack, .inl hclear⟩
  | flush hack _ _ _ _ hwhich =>
    refine .inr ⟨hack, .inr ?_⟩
    obtain hf | hf := hwhich
    · rw [base_eq.2.1, h.noFlush] at hf
      cases hf
    · rw [base_eq.2.2, Bool.or_eq_true] at hf
      exact (h.line hf.symm).1
  | restart hack hclear => exact .inl ⟨hack, hclear⟩

theorem ledger_ack (h : ack s i = true) : (histNext p s i).ledger =
    ⟨archNext s, [], [], 0, [], (histNext p s i).core.rob.length⟩ := by
  change ledgerNext p s i _ = _
  unfold ledgerNext
  rw [if_pos h]
  rfl

theorem ledger_go (h : ack s i = false) : (histNext p s i).ledger =
    { base := s.ledger.base
      fetched := s.ledger.fetched ++ pushes s i
      groups := if (pushes s i).isEmpty then s.ledger.groups else s.ledger.groups ++ [group s]
      before := s.ledger.fetched.length
      left := s.ledger.left ++ (leaves s (turn p s i)).drop s.ledger.older
      older :=
        if (turn p s i).clrRob then 0 else s.ledger.older - Core.leaving (turn p s i) } := by
  change ledgerNext p s i _ = _
  unfold ledgerNext
  rw [if_neg (by simp [h])]

/-- The length of the next reorder buffer, without what is allocated. -/
theorem rob_length : (turn p s i).clrRob = false →
    s.core.rob.length - Core.leaving (turn p s i) ≤ (histNext p s i).core.rob.length := by
  intro hclr
  change _ ≤ (Core.nextRob s.core (coreIn s i) (turn p s i)).length
  simp [Core.nextRob, hclr]

/-- While the core waits for the acknowledge, it stays. -/
theorem stays_unacked (hsane : Sane s.core) {st : Core.FsmState}
    (hst : st = .cacheFlush ∨ st = .haltWaitForRestart) (hs : s.core.regs.state = st)
    (hgot : s.core.regs.gotRestartAck = false) (hack : s.restartAck = false) :
    (histNext p s i).core.regs.state = st := by
  have hmem := Core.state_next (p := p) (i := coreIn s i) hsane.rob hsane.fits
  have hna : (Core.next p s.core (coreIn s i)).regs.state ≠ .active := by
    intro hn
    have haw : s.core.regs.state.awaits = true := by
      obtain rfl | rfl := hst <;> rw [hs] <;> rfl
    obtain h | h := Core.resume_acked haw hn
    · rw [hgot] at h
      cases h
    · change s.restartAck = true at h
      rw [hack] at h
      cases h
  change (Core.next p s.core (coreIn s i)).regs.state = st
  rw [hs] at hmem
  obtain rfl | rfl := hst <;>
    · simp only [Core.FsmState.succs, List.mem_cons, List.not_mem_nil, or_false] at hmem
      exact hmem.resolve_right hna

theorem sync_next (h : Sync s) (hsane : Sane s.core)
    (hgot : s.core.regs.state = .cacheFlush ∨ s.core.regs.state = .haltWaitForRestart →
      s.core.regs.gotRestartAck = false)
    (hflush : s.core.regs.state = .waitForSerializeAndRestart → pending s = true →
      ∀ e es, s.core.rob = e :: es → e.uop.op ≠ .cacheOp ∧ e.uop.op.isXflush = false) :
    Sync (histNext p s i) := by
  have hh := handshake (p := p) (s := s) (i := i)
  have hbase := base_eq (s := s) (i := i)
  have hrun : (histNext p s i).fetch.running = true ∨
      (histNext p s i).core.regs.state = .flushForHalt ∨
      (histNext p s i).core.regs.state = .halt ∨
      (histNext p s i).core.regs.state = .haltWaitForRestart ∨
      (histNext p s i).core.regs.state = .cacheFlush ∧ (histNext p s i).restartAck = false := by
    cases hh with
    | wait hack _ _ _ _ hr =>
      have hack : ack s i = false := hack
      rw [hr]
      obtain hrun | hs | hs | hs | ⟨hs, hra⟩ := h.running
      · exact .inl hrun
      · have hmem := Core.state_next (p := p) (i := coreIn s i) hsane.rob hsane.fits
        simp only [hs, Core.FsmState.succs, List.mem_cons, List.not_mem_nil, or_false] at hmem
        obtain hn | hn := hmem
        · exact .inr (.inl hn)
        · exact .inr (.inr (.inl hn))
      · have hmem := Core.state_next (p := p) (i := coreIn s i) hsane.rob hsane.fits
        simp only [hs, Core.FsmState.succs, List.mem_cons, List.not_mem_nil, or_false] at hmem
        obtain hn | hn := hmem
        · exact .inr (.inr (.inl hn))
        · exact .inr (.inr (.inr (.inl hn)))
      · cases hra : s.restartAck with
        | true => exact .inl (h.acked hra).2.1
        | false =>
          exact .inr (.inr (.inr (.inl (stays_unacked hsane (.inr rfl) hs (hgot (.inr hs)) hra))))
      · exact .inr (.inr (.inr (.inr
          ⟨stays_unacked hsane (.inl rfl) hs (hgot (.inl hs)) hra, hack⟩)))
    | flush hack _ _ _ _ hwhich =>
      obtain hf | hf := hwhich
      · rw [hbase.2.1, h.noFlush] at hf
        cases hf
      · rw [hbase.2.2, Bool.or_eq_true] at hf
        obtain ⟨hs, -, hra⟩ := h.line hf.symm
        exact .inr (.inr (.inr (.inr
          ⟨stays_unacked hsane (.inl rfl) hs (hgot (.inl hs)) hra, hack⟩)))
    | restart _ _ _ _ _ hr => exact .inl hr
  refine ⟨?_, ?_, ?_, ?_, ?_, hrun⟩
  · cases hack : ack s i with
    | true => rw [ledger_ack hack]
    | false =>
      rw [ledger_go hack]
      dsimp only
      cases hclr : (turn p s i).clrRob with
      | true => exact Nat.zero_le _
      | false =>
        have hlen := rob_length (p := p) (s := s) (i := i) hclr
        have hold := h.older
        rw [if_neg Bool.false_ne_true]
        omega
  · cases hack : ack s i with
    | true =>
      rw [ledger_ack hack]
      exact Nat.le_refl 0
    | false =>
      rw [ledger_go hack, List.length_append]
      exact Nat.le_add_right _ _
  · intro hack
    change ack s i = true at hack
    rw [ledger_ack hack]
    have hfq : (histNext p s i).fq = [] := by
      obtain ⟨-, hclear⟩ | ⟨hno, -⟩ := clears_cases (i := i) h
      · exact if_pos hclear
      · rw [hack] at hno
        cases hno
    cases hh with
    | wait hno => exact absurd (hno.symm.trans hack) Bool.false_ne_true
    | flush hno => exact absurd (hno.symm.trans hack) Bool.false_ne_true
    | restart _ _ _ _ hreq hr => exact ⟨hreq, hr, rfl, rfl, hfq, rfl⟩
  · cases hh with
    | wait _ _ _ hf => rw [hf, hbase.2.1, h.noFlush]
    | flush _ _ _ _ _ _ hdone => exact (hdone (hbase.2.1.trans h.noFlush)).1
    | restart _ _ _ _ _ _ hf => rw [hf, hbase.2.1, h.noFlush]
  · intro hline
    obtain hline | hline := hline
    · -- the request leaves the core
      obtain ⟨hs, hn, e, es, hrob, -, hop⟩ := Core.flushLine_next hline
      have hpend : pending s = false := by
        by_contra hp
        obtain ⟨hno, hx⟩ := hflush hs (by simpa using hp) e es hrob
        obtain hop | hop := hop
        · exact hno hop
        · rw [hx] at hop
          cases hop
      have hack : ack s i = false := by
        by_contra hack
        rw [pending_of_ack (by simpa using hack)] at hpend
        cases hpend
      refine ⟨hn, ?_, hack⟩
      obtain hr | hst := h.running
      · cases hh with
        | wait _ _ _ _ _ hrun => rw [hrun, hr]
        | flush _ _ _ _ _ hwhich =>
          obtain hf | hf := hwhich
          · rw [hbase.2.1, h.noFlush] at hf
            cases hf
          · rw [hbase.2.2, Bool.or_eq_true] at hf
            rw [(h.line hf.symm).1] at hs
            cases hs
        | restart _ _ _ _ _ hrun => exact hrun
      · simp [hs] at hst
    · -- the request waits in the fetch unit
      have hwas : s.fetch.flineReq = true ∨ s.core.regs.flushLineReqL1i = true := by
        cases hh with
        | wait _ _ _ _ hf =>
          rw [hf, hbase.2.2, Bool.or_eq_true] at hline
          exact hline
        | flush _ _ _ _ _ _ hdone =>
          rw [(hdone (hbase.2.1.trans h.noFlush)).2] at hline
          cases hline
        | restart _ _ _ _ _ _ _ hf =>
          rw [hf, hbase.2.2, Bool.or_eq_true] at hline
          exact hline
      obtain ⟨hs, hr, hra⟩ := h.line hwas.symm
      have hn := stays_unacked (p := p) (i := i) hsane (.inl rfl) hs (hgot (.inl hs)) hra
      cases hh with
      | wait hack _ _ _ _ hrun => exact ⟨hn, hrun.trans hr, hack⟩
      | flush _ _ _ _ _ _ hdone =>
        rw [(hdone (hbase.2.1.trans h.noFlush)).2] at hline
        cases hline
      | restart _ _ _ _ _ _ _ _ hfirst =>
        have hno := (hfirst hr).2
        rw [hbase.2.2, Bool.or_eq_false_iff] at hno
        obtain hw | hw := hwas
        · rw [hno.1] at hw
          cases hw
        · rw [hno.2] at hw
          cases hw

end Step

end Frontend

end R9999
