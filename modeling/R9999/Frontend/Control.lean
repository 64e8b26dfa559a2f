import R9999.Mmu.Itlb

/-!
# The handshake of the fetch control

When the control of `l1i.sv` acknowledges a restart, when it clears the fetch queue and when
it pushes into it.  A request that waits is acknowledged before anything is pushed again,
and nothing is pushed in the cycle behind an acknowledge.
-/

namespace R9999

namespace Mmu

/-- What a cycle pushes into the fetch queue. -/
inductive Push where
  | none | fault | group
  deriving DecidableEq, Repr

namespace Fetch

variable (f : Fetch) (i : FetchIn)

/-- The control looks at the requests in this state. -/
def listens : Bool :=
  match f.state with
  | .active | .reloadTurnaround | .waitForTlb => true
  | .waitForNotFull => i.fqFull
  | _ => false

/-- `n_restart_ack`. -/
def acks : Bool :=
  match f.state with
  | .idle => (f.base i).restartReq
  | _ => f.listens i && !(f.base i).flushReq && !(f.base i).flineReq && (f.base i).restartReq

/-- `t_clear_fq`. -/
def clears : Bool :=
  match f.state with
  | .idle => (f.base i).restartReq
  | _ => f.listens i && ((f.base i).flushReq || (f.base i).flineReq || (f.base i).restartReq)

/-- `t_push_insn`, with or without a second instruction, and of which kind. -/
def pushes : Push :=
  if f.state ≠ .active || (redirect i (f.base i)).isSome then .none
  else if f.req && f.mapped && !f.itlbReady && !f.ufastHit then .none
  else if f.req && f.cachePc.setWidth 2 != 0 then if i.fqFull then .none else .fault
  else if f.req && f.mapped && !f.translated then if i.fqFull then .none else .fault
  else if f.lineHits i && !i.fqFull then .group
  else .none

/-- The control fetches: it is past its initialization and in no flush. -/
def running : Bool :=
  match f.state with
  | .active | .injectReload | .reloadTurnaround | .waitForNotFull | .waitForTlb => true
  | _ => false

variable {f i}

/-- Nothing is pushed while a request waits, and nothing without an access. -/
theorem pushes_free (h : f.pushes i ≠ .none) :
    f.req = true ∧ (f.base i).restartReq = false ∧ f.running = true := by
  unfold pushes at h
  split at h
  · exact (h rfl).elim
  next hs =>
    simp only [Bool.or_eq_true, decide_eq_true_eq, not_or, Bool.not_eq_true,
      Option.isSome_eq_false_iff, Option.isNone_iff_eq_none] at hs
    obtain ⟨hst, hr⟩ := hs
    have hst : f.state = .active := by simpa using hst
    have hreq : (f.base i).restartReq = false := by
      by_contra hq
      unfold redirect at hr
      split at hr
      · cases hr
      · split at hr
        · cases hr
        · rw [if_pos (by simpa using hq)] at hr
          cases hr
    refine ⟨?_, hreq, by simp [running, hst]⟩
    by_contra hq
    have hq : f.req = false := by simpa using hq
    simp [hq, lineHits] at h

/-- What a cycle does about the requests.  `n` are the requests that wait, with those that
arrive. -/
inductive Handshake (f : Fetch) (i : FetchIn) (c : Fetch) : Prop where
  /-- They go on waiting. -/
  | wait (hack : f.acks i = false) (hclear : f.clears i = false)
      (hrestart : c.restartReq = (f.base i).restartReq) (hflush : c.flushReq = (f.base i).flushReq)
      (hline : c.flineReq = (f.base i).flineReq) (hrun : c.running = f.running)
  /-- A flush begins. -/
  | flush (hack : f.acks i = false) (hclear : f.clears i = true) (hrun : f.running = true)
      (hstop : c.running = false) (hrestart : c.restartReq = (f.base i).restartReq)
      (hwhich : (f.base i).flushReq = true ∨ (f.base i).flineReq = true)
      (hdone : (f.base i).flushReq = false → c.flushReq = false ∧ c.flineReq = false)
  /-- The restart is acknowledged. -/
  | restart (hack : f.acks i = true) (hclear : f.clears i = true)
      (hwas : (f.base i).restartReq = true) (hrestart : c.restartReq = false)
      (hreq : c.req = false) (hrun : c.running = true) (hflush : c.flushReq = (f.base i).flushReq)
      (hline : c.flineReq = (f.base i).flineReq)
      (hfirst : f.running = true → (f.base i).flushReq = false ∧ (f.base i).flineReq = false)

/-- A state that listens redirects, or has no request to wait for. -/
theorem redirect_cases (hl : f.listens i = true) {n : Fetch}
    (hflush : n.flushReq = (f.base i).flushReq) (hline : n.flineReq = (f.base i).flineReq)
    (hrestart : n.restartReq = (f.base i).restartReq) :
    (∃ r, redirect i n = some r ∧ Handshake f i r) ∨
      redirect i n = none ∧ f.acks i = false ∧ f.clears i = false := by
  have hst : f.state ≠ .idle := by
    intro h
    simp [listens, h] at hl
  have hrun : f.running = true := by
    unfold listens at hl
    unfold running
    cases h : f.state <;> simp [h] at hl ⊢
  have hack : f.acks i = (f.listens i && !(f.base i).flushReq && !(f.base i).flineReq &&
      (f.base i).restartReq) := by
    unfold acks
    split
    next h => exact (hst h).elim
    next => rfl
  have hclear : f.clears i = (f.listens i && ((f.base i).flushReq || (f.base i).flineReq ||
      (f.base i).restartReq)) := by
    unfold clears
    split
    next h => exact (hst h).elim
    next => rfl
  rw [hl, Bool.true_and] at hack hclear
  unfold redirect
  cases hf : (f.base i).flushReq with
  | true =>
    rw [hf] at hflush
    rw [if_pos hflush]
    refine .inl ⟨_, rfl, .flush (by simp [hack, hf]) (by simp [hclear, hf]) hrun rfl hrestart
      (.inl hf) ?_⟩
    intro hno
    rw [hf] at hno
    cases hno
  | false =>
    rw [hf] at hflush
    rw [if_neg (by simp [hflush])]
    cases hg : (f.base i).flineReq with
    | true =>
      rw [hg] at hline
      rw [if_pos hline]
      exact .inl ⟨_, rfl, .flush (by simp [hack, hg]) (by simp [hclear, hg]) hrun rfl hrestart
        (.inr hg) fun _ => ⟨hflush, rfl⟩⟩
    | false =>
      rw [hg] at hline
      rw [if_neg (by simp [hline])]
      cases hr : (f.base i).restartReq with
      | true =>
        rw [hr] at hrestart
        rw [if_pos hrestart]
        exact .inl ⟨_, rfl, .restart (by simp [hack, hf, hg, hr]) (by simp [hclear, hr]) hr rfl rfl
          rfl (hflush.trans hf.symm) (hline.trans hg.symm) fun _ => ⟨hf, hg⟩⟩
      | false =>
        rw [hr] at hrestart
        rw [if_neg (by simp [hrestart])]
        exact .inr ⟨rfl, by simp [hack, hr], by simp [hclear, hf, hg, hr]⟩

/-- A register choice that keeps the requests waits. -/
theorem Handshake.hold {c : Fetch} (hack : f.acks i = false) (hclear : f.clears i = false)
    (hreq : c.restartReq = (f.base i).restartReq ∧ c.flushReq = (f.base i).flushReq ∧
      c.flineReq = (f.base i).flineReq) (hrun : c.running = f.running) : Handshake f i c :=
  .wait hack hclear hreq.1 hreq.2.1 hreq.2.2 hrun

theorem active_handshake (hst : f.state = .active) : Handshake f i (f.active i) := by
  have hrun : f.running = true := by simp [running, hst]
  unfold active
  obtain ⟨r, hr, h⟩ | ⟨hr, hack, hclear⟩ := redirect_cases (f := f) (i := i) (by simp [listens, hst])
    (n := { f.base i with cachePc := f.pc, req := true, pc := f.pc + 4 }) rfl rfl rfl
  · simpa only [hr] using h
  · -- every way to go on keeps the requests
    simp only [hr]
    split
    · exact .hold hack hclear ⟨rfl, rfl, rfl⟩ hrun.symm
    split
    · split
      · exact .hold hack hclear ⟨rfl, rfl, rfl⟩ hrun.symm
      · exact .hold hack hclear ⟨rfl, rfl, rfl⟩ rfl
    split
    · split
      · exact .hold hack hclear ⟨rfl, rfl, rfl⟩ hrun.symm
      · exact .hold hack hclear ⟨rfl, rfl, rfl⟩ rfl
    split
    · exact .hold hack hclear ⟨rfl, rfl, rfl⟩ hrun.symm
    split
    · split
      · exact .hold hack hclear ⟨rfl, rfl, rfl⟩ hrun.symm
      · exact .hold hack hclear ⟨rfl, rfl, rfl⟩ rfl
    · exact .hold hack hclear ⟨rfl, rfl, rfl⟩ rfl

/-- What a cycle of the control does about the requests. -/
theorem control_handshake (f : Fetch) (i : FetchIn) : Handshake f i (f.control i) := by
  -- a state that neither listens nor waits for a restart
  have deaf {c : Fetch} (hst : f.state = .init ∨ f.state = .initPht ∨ f.state = .flushCache ∨
      f.state = .injectReload) (hreq : c.restartReq = (f.base i).restartReq ∧
        c.flushReq = (f.base i).flushReq ∧ c.flineReq = (f.base i).flineReq)
      (hrun : c.running = f.running) : Handshake f i c := by
    obtain hst | hst | hst | hst := hst <;>
      exact .hold (by simp [acks, listens, hst]) (by simp [clears, listens, hst]) hreq hrun
  unfold control
  dsimp only
  split
  next hst => exact deaf (.inl hst) ⟨rfl, rfl, rfl⟩ (by simp [running, hst])
  next hst =>
    split
    · exact deaf (.inr (.inl hst)) ⟨rfl, rfl, rfl⟩ (by simp [running, hst])
    · exact deaf (.inr (.inl hst)) ⟨rfl, rfl, rfl⟩ rfl
  next hst =>
    split
    next hr =>
      refine .restart (by simpa [acks, hst] using hr) (by simpa [clears, hst] using hr) hr rfl rfl
        rfl rfl rfl ?_
      intro hrun
      simp [running, hst] at hrun
    next hr =>
      have hr : (f.base i).restartReq = false := by simpa using hr
      exact .hold (by simpa [acks, hst] using hr) (by simpa [clears, hst] using hr)
        ⟨rfl, rfl, rfl⟩ rfl
  next hst => exact active_handshake hst
  next hst =>
    split
    · exact deaf (.inr (.inr (.inr hst))) ⟨rfl, rfl, rfl⟩ (by simp [running, hst])
    · exact deaf (.inr (.inr (.inr hst))) ⟨rfl, rfl, rfl⟩ rfl
  next hst =>
    obtain ⟨r, hr, h⟩ | ⟨hr, hack, hclear⟩ := redirect_cases (f := f) (i := i)
      (by simp [listens, hst]) (n := f.base i) rfl rfl rfl
    · simpa only [hr] using h
    · simp only [hr]
      split
      · exact .hold hack hclear ⟨rfl, rfl, rfl⟩ rfl
      · exact .hold hack hclear ⟨rfl, rfl, rfl⟩ (by simp [running, hst])
  next hst =>
    split
    · exact deaf (.inr (.inr (.inl hst))) ⟨rfl, rfl, rfl⟩ (by simp [running, hst])
    · split
      · exact deaf (.inr (.inr (.inl hst))) ⟨rfl, rfl, rfl⟩ (by simp [running, hst])
      · exact deaf (.inr (.inr (.inl hst))) ⟨rfl, rfl, rfl⟩ rfl
  next hst =>
    split
    next hfull =>
      obtain ⟨r, hr, h⟩ | ⟨hr, hack, hclear⟩ := redirect_cases (f := f) (i := i)
        (by simp [listens, hst, hfull]) (n := { f.base i with cachePc := f.missPc }) rfl rfl rfl
      · simpa only [hr, Option.getD_some] using h
      · simp only [hr, Option.getD_none]
        exact .hold hack hclear ⟨rfl, rfl, rfl⟩ rfl
    next hfull =>
      have hfull : i.fqFull = false := by simpa using hfull
      exact .hold (by simp [acks, listens, hst, hfull]) (by simp [clears, listens, hst, hfull])
        ⟨rfl, rfl, rfl⟩ (by simp [running, hst])
  next hst =>
    unfold waitForTlb
    obtain ⟨r, hr, h⟩ | ⟨hr, hack, hclear⟩ := redirect_cases (f := f) (i := i)
      (by simp [listens, hst]) (n := { f.base i with cachePc := f.missPc, req := true }) rfl rfl rfl
    · simpa only [hr] using h
    · simp only [hr]
      split
      · exact .hold hack hclear ⟨rfl, rfl, rfl⟩ (by simp [running, hst])
      · exact .hold hack hclear ⟨rfl, rfl, rfl⟩ rfl

/-- A clock cycle adds the lookups of the TLB to what the control does. -/
theorem tick_handshake (f : Fetch) (i : FetchIn) : Handshake f i (f.tick i) := by
  have h := control_handshake f i
  cases h with
  | wait hack hclear hrestart hflush hline hrun =>
    exact .wait hack hclear hrestart hflush hline hrun
  | flush hack hclear hrun hstop hrestart hwhich hdone =>
    exact .flush hack hclear hrun hstop hrestart hwhich hdone
  | restart hack hclear hwas hrestart hreq hrun hflush hline hfirst =>
    exact .restart hack hclear hwas hrestart hreq hrun hflush hline hfirst

end Fetch

end Mmu

end R9999
