import R9999.Frontend.Control

/-!
# The steering of the fetch

Where the control of `l1i.sv` goes on.  The address of the access and the one behind it are
in `r_cache_pc` and `r_pc`; while the control waits for a line, a translation or the fetch
queue, the first of them is in `r_miss_pc`.
-/

namespace R9999

namespace Mmu

namespace Fetch

variable (f : Fetch) (i : FetchIn)

/-- The address that is pushed next. -/
def addr : BitVec 64 :=
  match f.state with
  | .active => if f.req then f.cachePc else f.pc
  | _ => f.missPc

/-- The address behind it. -/
def behind : BitVec 64 := if f.state = .active ∧ f.req = false then f.pc + 4 else f.pc

variable {f i}

/-- Behind a clear nothing is pushed in the same cycle. -/
theorem pushes_clears (h : f.pushes i ≠ .none) : f.clears i = false := by
  unfold pushes at h
  split at h
  · exact (h rfl).elim
  next hs =>
    simp only [Bool.or_eq_true, decide_eq_true_eq, not_or, Bool.not_eq_true,
      Option.isSome_eq_false_iff, Option.isNone_iff_eq_none] at hs
    obtain ⟨hst, hr⟩ := hs
    have hst : f.state = .active := by simpa using hst
    have hl : f.listens i = true := by simp [listens, hst]
    obtain ⟨r, hr', -⟩ | ⟨-, -, hclear⟩ := redirect_cases (f := f) (i := i) hl
      (n := f.base i) rfl rfl rfl
    · rw [hr] at hr'
      cases hr'
    · exact hclear

/-- Without a request to look at, the control goes on. -/
theorem redirect_none (hl : f.listens i = true) (hclear : f.clears i = false) {n : Fetch}
    (hflush : n.flushReq = (f.base i).flushReq) (hline : n.flineReq = (f.base i).flineReq)
    (hrestart : n.restartReq = (f.base i).restartReq) : redirect i n = none := by
  have hst : f.state ≠ .idle := by
    intro h
    simp [listens, h] at hl
  have hno : ((f.base i).flushReq || (f.base i).flineReq || (f.base i).restartReq) = false := by
    unfold clears at hclear
    split at hclear
    next h => exact (hst h).elim
    next => rwa [hl, Bool.true_and] at hclear
  simp only [Bool.or_eq_false_iff] at hno
  obtain ⟨⟨hf, hg⟩, hr⟩ := hno
  simp [redirect, hflush, hline, hrestart, hf, hg, hr]

/-- An acknowledge makes the control fetch from the address of the restart. -/
theorem acks_goes (h : f.acks i = true) :
    (f.control i).addr = i.restartPc ∧ (f.control i).behind = i.restartPc + 4 := by
  -- a state that listens, with the registers otherwise chosen
  have goes (hl : f.listens i = true) {n : Fetch} (hflush : n.flushReq = (f.base i).flushReq)
      (hline : n.flineReq = (f.base i).flineReq)
      (hrestart : n.restartReq = (f.base i).restartReq) :
      ∃ r, redirect i n = some r ∧ r.addr = i.restartPc ∧ r.behind = i.restartPc + 4 := by
    have hst : f.state ≠ .idle := by
      intro h
      simp [listens, h] at hl
    unfold acks at h
    split at h
    next hi => exact (hst hi).elim
    next =>
      simp only [Bool.and_eq_true, Bool.not_eq_true'] at h
      obtain ⟨⟨⟨-, hf⟩, hg⟩, hr⟩ := h
      exact ⟨{ n with restartReq := false, pc := i.restartPc, req := false, state := .active },
        by simp [redirect, hflush, hline, hrestart, hf, hg, hr], rfl, rfl⟩
  unfold control
  dsimp only
  split
  next hst => simp [acks, listens, hst] at h
  next hst => simp [acks, listens, hst] at h
  next hst =>
    have hr : (f.base i).restartReq = true := by simpa [acks, hst] using h
    rw [if_pos hr]
    exact ⟨by simp [addr, base], by simp [behind, base]⟩
  next hst =>
    obtain ⟨r, hr, hgo⟩ := goes (by simp [listens, hst])
      (n := { f.base i with cachePc := f.pc, req := true, pc := f.pc + 4 }) rfl rfl rfl
    unfold active
    simpa only [hr] using hgo
  next hst => simp [acks, listens, hst] at h
  next hst =>
    obtain ⟨r, hr, hgo⟩ := goes (by simp [listens, hst]) (n := f.base i) rfl rfl rfl
    simpa only [hr] using hgo
  next hst => simp [acks, listens, hst] at h
  next hst =>
    have hl : f.listens i = true := by
      by_contra hl
      simp [acks, hst, hl] at h
    have hfull : i.fqFull = true := by simpa [listens, hst] using hl
    obtain ⟨r, hr, hgo⟩ := goes hl (n := { f.base i with cachePc := f.missPc }) rfl rfl rfl
    rw [if_pos hfull, hr]
    exact hgo
  next hst =>
    obtain ⟨r, hr, hgo⟩ := goes (by simp [listens, hst])
      (n := { f.base i with cachePc := f.missPc, req := true }) rfl rfl rfl
    unfold waitForTlb
    simpa only [hr] using hgo

/-- Where the stream goes on in a cycle in which the queue is not cleared. -/
inductive GoesOn (f : Fetch) (i : FetchIn) (c : Fetch) : Prop where
  /-- Nothing is pushed. -/
  | wait (hpush : f.pushes i = .none)
      (hkeep : f.running = true → c.addr = f.addr ∧ c.behind = f.behind)
  /-- A fetch that faults is pushed. -/
  | fault (hpush : f.pushes i = .fault) (hcache : f.addr = f.cachePc)
      (haddr : c.addr = f.behind) (hbehind : c.behind = f.cachePc + 4)
  /-- A group is pushed. -/
  | group (hpush : f.pushes i = .group) (hcache : f.addr = f.cachePc) (hpc : f.behind = f.pc)
      (haddr : c.addr = if i.two then f.cachePc + 8 else f.behind) (hbehind : c.behind = i.predicted)

/-- An access goes on. -/
theorem active_goesOn (hst : f.state = .active) (hclear : f.clears i = false) :
    GoesOn f i (f.active i) := by
  have hnone := redirect_none (f := f) (i := i) (by simp [listens, hst]) hclear
    (n := { f.base i with cachePc := f.pc, req := true, pc := f.pc + 4 }) rfl rfl rfl
  have hbase : redirect i (f.base i) = none :=
    redirect_none (by simp [listens, hst]) hclear rfl rfl rfl
  have hfree : ¬ (f.state ≠ .active ∨ (redirect i (f.base i)).isSome) := by simp [hst, hbase]
  unfold active
  simp only [hnone]
  cases hreq : f.req with
  | false =>
    refine .wait (by simp [pushes, hst, hbase, hreq, lineHits]) fun _ => ?_
    simp [hreq, miss, lineHits, addr, behind, hst, base]
  | true =>
    have haddr : f.addr = f.cachePc := by simp [addr, hst, hreq]
    have hbehind : f.behind = f.pc := by simp [behind, hreq]
    have hp : f.pushes i =
        if f.mapped && !f.itlbReady && !f.ufastHit then .none
        else if f.cachePc.setWidth 2 != 0 then if i.fqFull then .none else .fault
        else if f.mapped && !f.translated then if i.fqFull then .none else .fault
        else if f.lineHits i && !i.fqFull then .group else .none := by
      simp [pushes, hst, hbase, hreq]
    have stay {c : Fetch} (hpush : f.pushes i = .none) (ha : c.addr = f.cachePc)
        (hb : c.behind = f.pc) : GoesOn f i c :=
      .wait hpush fun _ => ⟨ha.trans haddr.symm, hb.trans hbehind.symm⟩
    simp only [Bool.true_and]
    split
    next hwait => exact stay (by rw [hp, if_pos hwait]) rfl rfl
    next hwait =>
    rw [if_neg hwait] at hp
    -- an address or a translation that faults
    have faults (hfull : ¬ i.fqFull = true) (hpush : f.pushes i = if i.fqFull then .none else .fault) :
        GoesOn f i { f.base i with cachePc := f.pc, req := true, pc := f.cachePc + 4 } := by
      rw [if_neg hfull] at hpush
      exact .fault hpush haddr (by simp [addr, hst, base, hbehind]) (by simp [behind])
    split
    next halign =>
      rw [if_pos halign] at hp
      split
      next hfull => exact stay (by rw [hp, if_pos hfull]) rfl rfl
      next hfull => exact faults hfull hp
    next halign =>
    rw [if_neg halign] at hp
    split
    next htrans =>
      rw [if_pos htrans] at hp
      split
      next hfull => exact stay (by rw [hp, if_pos hfull]) rfl rfl
      next hfull => exact faults hfull hp
    next htrans =>
    rw [if_neg htrans] at hp
    split
    next hmiss =>
      have hhit : f.lineHits i = false := by
        simp only [miss, Bool.and_eq_true, Bool.not_eq_true'] at hmiss
        simp [lineHits, hmiss.2]
      exact stay (by simp [hp, hhit]) rfl rfl
    next hmiss =>
    split
    next hhit =>
      split
      next hfull => exact stay (by simp [hp, hfull]) rfl rfl
      next hfull =>
        refine .group (by simp [hp, hhit, hfull]) haddr hbehind ?_ (by simp [behind])
        simp [addr, hst, base, hbehind]
    next hhit =>
      -- an access hits or misses
      simp only [miss, lineHits, hreq, Bool.and_true, Bool.and_eq_true, Bool.not_eq_true'] at hmiss hhit
      have htr : (f.mapped && !f.translated) = false := by simpa using htrans
      simp [htr] at hmiss hhit
      simp [hmiss] at hhit

theorem control_goesOn (hclear : f.clears i = false) : GoesOn f i (f.control i) := by
  -- a state in which nothing is fetched
  have idle {c : Fetch} (hst : f.state ≠ .active) (hrun : f.running = false) : GoesOn f i c := by
    refine .wait (by simp [pushes, hst]) ?_
    rw [hrun]
    intro h
    cases h
  -- a state that waits
  have waits {c : Fetch} (hst : f.state ≠ .active) (haddr : c.addr = f.missPc)
      (hbehind : c.behind = f.pc) : GoesOn f i c := by
    refine .wait (by simp [pushes, hst]) fun _ => ⟨haddr.trans ?_, hbehind.trans ?_⟩
    · unfold addr
      split
      next h => exact (hst h).elim
      next => rfl
    · simp [behind, hst]
  unfold control
  dsimp only
  split
  next hst => exact idle (by simp [hst]) (by simp [running, hst])
  next hst => exact idle (by simp [hst]) (by simp [running, hst])
  next hst => exact idle (by simp [hst]) (by simp [running, hst])
  next hst => exact active_goesOn hst hclear
  next hst =>
    refine waits (by simp [hst]) ?_ ?_
    · split <;> simp [addr, base, hst]
    · split <;> simp [behind, base, hst]
  next hst =>
    rw [redirect_none (by simp [listens, hst]) hclear rfl rfl rfl]
    dsimp only
    split
    · exact waits (by simp [hst]) (by simp [addr, base, hst]) (by simp [behind, base, hst])
    · exact waits (by simp [hst]) (by simp [addr]) (by simp [behind, base])
  next hst => exact idle (by simp [hst]) (by simp [running, hst])
  next hst =>
    split
    next hfull =>
      have hnone := redirect_none (f := f) (i := i) (by simp [listens, hst, hfull]) hclear
        (n := { f.base i with cachePc := f.missPc }) rfl rfl rfl
      rw [hnone, Option.getD_none]
      exact waits (by simp [hst]) (by simp [addr, base, hst]) (by simp [behind, base, hst])
    next => exact waits (by simp [hst]) (by simp [addr]) (by simp [behind, base])
  next hst =>
    have hnone := redirect_none (f := f) (i := i) (by simp [listens, hst]) hclear
      (n := { f.base i with cachePc := f.missPc, req := true }) rfl rfl rfl
    unfold waitForTlb
    simp only [hnone]
    split
    · exact waits (by simp [hst]) (by simp [addr]) (by simp [behind, base])
    · exact waits (by simp [hst]) (by simp [addr, base, hst]) (by simp [behind, base, hst])

/-- A clock cycle adds the lookups of the TLB. -/
theorem tick_goesOn (hclear : f.clears i = false) : GoesOn f i (f.tick i) := by
  cases control_goesOn hclear with
  | wait hpush hkeep => exact .wait hpush hkeep
  | fault hpush hcache haddr hbehind => exact .fault hpush hcache haddr hbehind
  | group hpush hcache hpc haddr hbehind => exact .group hpush hcache hpc haddr hbehind

end Fetch

end Mmu

end R9999
