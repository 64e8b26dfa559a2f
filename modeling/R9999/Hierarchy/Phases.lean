import R9999.Hierarchy.Bus
import R9999.L1d.Jobs

/-!
# The flush operations through the hierarchy

A flush operation of the core passes through the L1D and, for a whole-cache flush, from
there to the L2.  `Phase` lists where it can be; `phase_next` says that a clock edge moves
it on.  What the rest of the development needs from it: the L2 walks only while the L1D is
empty and has no request of the core inside, and the address of a line or page operation
is held while the L1D works on it (`Aim`).
-/

namespace R9999

namespace Hier

variable {g : Geometry} {s : Hier} {i : Stim}

/-- The L1D's latched flush requests of the core, its job and its completion pulse. -/
structure L1dAt (s : Hier) (cache cl pg : Bool) (j : L1d.Job) (done : Bool) : Prop where
  cache : s.l1d.regs.pend.cache = cache
  cl : s.l1d.regs.pend.cl = cl
  pg : s.l1d.regs.pend.pg = pg
  job : s.l1d.regs.proto.job = j
  done : s.l1d.regs.flushComplete = done

/-- The core's state, its request pulses and the completions it has seen. -/
structure CoreAt (s : Hier) (t : CoreState) (whole cl pg l1d l2 : Bool) : Prop where
  state : s.core.state = t
  whole : s.core.flushReqL1d = whole
  cl : s.core.flushClReq = cl
  pg : s.core.flushPgReq = pg
  l1d : s.core.l1dFlushComplete = l1d
  l2 : s.core.l2FlushComplete = l2

/-- The L2's flush request machine. -/
structure L2At (s : Hier) (wait req done : Bool) : Prop where
  state : s.l2.regs.flushState = if wait then .waitForL1FlushDone else .waitForFlush
  needL1d : s.l2.regs.needL1d = wait
  needL1i : s.l2.regs.needL1i = false
  hadL1d : s.l2.regs.hadL1d = wait
  skip : s.l2.regs.flushSkip = false
  req : s.l2.regs.flushReq = req
  done : s.l2.regs.flushComplete = done
  walks : L2View.walks s.l2.regs.state = true → s.l2.regs.flushReq = true

/-- The L1D holds nothing and nothing will ask it for anything. -/
structure Rests (s : Hier) : Prop where
  calm : L1d.Calm s.l1d
  empty : L1d.Empty s.l1d.arr

/-- Where a flush operation of the core can be. -/
inductive Phase (s : Hier) : Prop
  /-- Both caches come out of reset. -/
  | boot (f₁ f₂ : Bool) (hc : CoreAt s .flushForHalt false false false f₁ f₂) (hr : Rests s)
      (h₁ : L1dAt s false false false .init false ∧ f₁ = false ∨
        L1dAt s false false false .none true ∧ f₁ = false ∨
        L1dAt s false false false .none false ∧ f₁ = true)
      (h₂ : L2At s false false false ∧ s.l2.regs.state = .init ∧ f₂ = false ∨
        L2At s false false true ∧ s.l2.regs.state ≠ .init ∧ f₂ = false ∨
        L2At s false false false ∧ s.l2.regs.state ≠ .init ∧ f₂ = true)
  | active (hc : CoreAt s .active false false false false false)
      (h₁ : L1dAt s false false false .none false) (h₂ : L2At s false false false)
      (hi : s.l2.regs.state ≠ .init)
  /-- A line or page operation. -/
  | line (cl pg : Bool) (hc : CoreAt s .lineFlush false cl pg false true)
      (h₁ : pg = !cl ∧ L1dAt s false false false .none false ∨
        (cl = false ∧ pg = false) ∧ (L1dAt s false true false .none false ∨
          L1dAt s false false true .none false ∨ L1dAt s false false false .line false ∨
          L1dAt s false false false .none true))
      (h₂ : L2At s false false false) (hi : s.l2.regs.state ≠ .init)
  /-- A whole-cache operation, on its way to the L1D. -/
  | wholePulse (hc : CoreAt s .wholeFlush true false false false false)
      (h₁ : L1dAt s false false false .none false) (h₂ : L2At s false false false)
      (hi : s.l2.regs.state ≠ .init)
  | wholePend (hc : CoreAt s .wholeFlush false false false false false)
      (h₁ : L1dAt s true false false .none false) (h₂ : L2At s true false false)
      (hi : s.l2.regs.state ≠ .init)
  /-- The L1D walks. -/
  | wholeWork (hc : CoreAt s .wholeFlush false false false false false) (hq : s.core.quiet = true)
      (hr : L1d.Calm s.l1d) (h₁ : L1dAt s false false false .whole false)
      (h₂ : L2At s true false false) (hi : s.l2.regs.state ≠ .init)
  | wholeDone (hc : CoreAt s .wholeFlush false false false false false) (hq : s.core.quiet = true)
      (hr : Rests s) (h₁ : L1dAt s false false false .none true) (h₂ : L2At s true false false)
      (hi : s.l2.regs.state ≠ .init)
  /-- The L2 walks, or is about to. -/
  | walk (hc : CoreAt s .wholeFlush false false false true false) (hq : s.core.quiet = true)
      (hr : Rests s) (h₁ : L1dAt s false false false .none false) (h₂ : L2At s false true false)
      (hi : s.l2.regs.state ≠ .init)
  | walkDone (hc : CoreAt s .wholeFlush false false false true false) (hq : s.core.quiet = true)
      (hr : Rests s) (h₁ : L1dAt s false false false .none false) (h₂ : L2At s false false true)
      (hi : s.l2.regs.state ≠ .init)

/-- The L2 walks only over an L1D that rests. -/
theorem Phase.rests (h : Phase s)
    (hw : s.l2.regs.flushReq = true ∨ L2View.walks s.l2.regs.state = true ∨
      s.l2.regs.state = .init) : Rests s := by
  have key : ∀ {w d}, L2At s w false d → s.l2.regs.state ≠ .init → False := by
    intro w d h₂ hi
    rcases hw with h | h | h
    · exact absurd h (by simp [h₂.req])
    · exact absurd (h₂.walks h) (by simp [h₂.req])
    · exact hi h
  cases h with
  | boot _ _ _ hr | wholeDone _ _ hr | walk _ _ hr | walkDone _ _ hr => exact hr
  | active _ _ h₂ hi | line _ _ _ _ h₂ hi | wholePulse _ _ h₂ hi | wholePend _ _ h₂ hi
  | wholeWork _ _ _ _ h₂ hi => exact (key h₂ hi).elim

/-! ## One clock edge of each part -/

/-- The L2's flush request machine. -/
theorem L2At.next {w q d : Bool} (h₂ : L2At s w q d) (h : Wf g s) :
    let w' := if w then !s.l1d.regs.flushComplete else s.core.flushReqL1d
    L2At (s.next g i) w' (q || (w && s.l1d.regs.flushComplete))
          (decide (s.l2.regs.state = .init) && decide ((s.next g i).l2.regs.state = .idle)) ∧
        ((s.next g i).l2.regs.state = .init → s.l2.regs.state = .init) ∨
      q = true ∧ L2At (s.next g i) w' false true ∧ (s.next g i).l2.regs.state = .idle := by
  intro w'
  obtain ⟨hst, hd, hi, hh, hk, hq, -, hw⟩ := h₂
  have hstep := l2_step (g := g) (i := i) h.settled
  obtain ⟨e1, e2, e3, e4⟩ := L2View.flushState_step hstep
  have hf : (L2.flushComb s.l2.regs (s.l2Pins g i)) =
      ⟨if w' then .waitForL1FlushDone else .waitForFlush, w', false, w',
        w && s.l1d.regs.flushComplete, false⟩ := by
    cases w <;> cases hc : s.l1d.regs.flushComplete <;> cases hr : s.core.flushReqL1d <;>
      simp [L2.flushComb, hst, hd, hi, hh, l2Pins, w', hc, hr]
  have hskip : (L2View.tick s.l2.view.regs (s.l2Pins g i)).flushSkip = false := by
    change (s.l2.regs.flushSkip || ((L2.flushComb s.l2.regs (s.l2Pins g i)).l2FlushReq &&
      (L2.flushComb s.l2.regs (s.l2Pins g i)).l2SkipWalk)) = false
    rw [hf, hk]
    simp
  have hreq : (L2View.tick s.l2.view.regs (s.l2Pins g i)).flushReq =
      (q || (w && s.l1d.regs.flushComplete)) := by
    change (s.l2.regs.flushReq || (L2.flushComb s.l2.regs (s.l2Pins g i)).l2FlushReq) = _
    rw [hf, hq]
  have e1' : (s.next g i).l2.regs.flushState = (L2.flushComb s.l2.regs (s.l2Pins g i)).state := e1
  have e2' : (s.next g i).l2.regs.needL1d = (L2.flushComb s.l2.regs (s.l2Pins g i)).needL1d := e2
  have e3' : (s.next g i).l2.regs.needL1i = (L2.flushComb s.l2.regs (s.l2Pins g i)).needL1i := e3
  have e4' : (s.next g i).l2.regs.hadL1d = (L2.flushComb s.l2.regs (s.l2Pins g i)).hadL1d := e4
  rw [hf] at e1' e2' e3' e4'
  obtain ⟨f1, f2, f3⟩ := L2View.flushReq_step hstep hskip hw
  rcases f3 with ⟨f3, f4, f5⟩ | ⟨f3, f4, f5, f6, f7⟩
  · exact .inl ⟨⟨e1', e2', e3', e4', f1, f3.trans hreq, f4, f2⟩, f5⟩
  · have f3' : s.l2.regs.flushReq = true := f3
    exact .inr ⟨hq.symm.trans f3', ⟨e1', e2', e3', e4', f1, f5, f6, f2⟩, f7⟩

/-- What the L1D can do about the core's operations. -/
inductive L1dNext (g : Geometry) (s : Hier) (i : Stim) (cache cl pg : Bool) (j : L1d.Job) : Prop
  | keep (h : L1dAt (s.next g i) (cache || s.core.flushReqL1d) (cl || s.core.flushClReq)
      (pg || s.core.flushPgReq) j false)
  | whole (h0 : j = .none) (hc : cache = true) (hd : L1d.drained s.l1d (s.l1dPins i) = true)
      (hs : s.l1d.regs.state = .active) (hg : (s.next g i).l1d.regs.gotReq = false)
      (hg2 : (s.next g i).l1d.regs.gotReq2 = false)
      (h : L1dAt (s.next g i) false (cl || s.core.flushClReq) (pg || s.core.flushPgReq) .whole
        false)
  | cl (h0 : j = .none) (hc : cl = true)
      (h : L1dAt (s.next g i) (cache || s.core.flushReqL1d) false (pg || s.core.flushPgReq) .line
        false)
  | pg (h0 : j = .none) (hc : pg = true)
      (h : L1dAt (s.next g i) (cache || s.core.flushReqL1d) (cl || s.core.flushClReq) false .line
        false)
  | finish (h0 : j ≠ .none)
      (h : L1dAt (s.next g i) (cache || s.core.flushReqL1d) (cl || s.core.flushClReq)
        (pg || s.core.flushPgReq) .none true)

theorem L1dAt.next {cache cl pg d : Bool} {j : L1d.Job} (h₁ : L1dAt s cache cl pg j d)
    (h : Wf g s) (hm : L1d.Marks s.l1d.regs.proto) : L1dNext g s i cache cl pg j := by
  have hj := L1d.job_step (l1d_step h (i := i)) h.pipe hm
  obtain ⟨c1, c2, c3, c4, -⟩ := h₁
  subst c1 c2 c3 c4
  have hat : ∀ {pend : L1d.FlushPend} {j' : L1d.Job} {f : Bool},
      (s.next g i).l1d.regs.proto.pend = pend → (s.next g i).l1d.regs.proto.job = j' →
      (s.next g i).l1d.regs.proto.flushComplete = f →
      L1dAt (s.next g i) pend.cache pend.cl pend.pg j' f := by
    intro pend j' f hp hj hf
    exact ⟨congrArg L1d.FlushPend.cache hp, congrArg L1d.FlushPend.cl hp,
      congrArg L1d.FlushPend.pg hp, hj, hf⟩
  cases hj with
  | keep hp hj hf => exact .keep (hat hp hj hf)
  | startCache h0 hc hd hs hg hg2 hp hj hf => exact .whole h0 hc hd hs hg hg2 (hat hp hj hf)
  | startCl h0 hc hp hj hf => exact .cl h0 hc (hat hp hj hf)
  | startPg h0 hc hp hj hf => exact .pg h0 hc (hat hp hj hf)
  | startDma h0 hc hp hj hf => exact .keep (hat hp (hj.trans h0.symm) hf)
  | finish h0 hp hj hf => exact .finish h0 (hat hp hj hf)

/-- The core makes no request of an L1D that it waits for. -/
theorem coreReq_of_quiet (hc : s.core.state = .flushForHalt ∨
      s.core.state = .wholeFlush ∧ s.core.quiet = true) :
    (s.l1dPins i).coreReqValid = false := by
  change (i.coreReqValid && s.core.mayRequest i.coreReq.commit) = false
  rcases hc with hc | ⟨hc, hq⟩
  · simp [CorePort.mayRequest, hc]
  · simp [CorePort.mayRequest, hc, hq]

/-! ## The phases -/

section PhaseNext

variable (h : Wf g s) (hm : L1d.Marks s.l1d.regs.proto) (hsane : L1d.Sane g s.l1d.arr)
  (hsent : L1d.Sent g s.l1d.regs.proto s.l1d.arr) (haim : L1d.Aimed g s.l1d (s.l1dPins i))
  (hwalk : L1d.Walked g s.l1d.regs.proto s.l1d.arr)

include h hsane hsent haim in
/-- An L1D that rests goes on resting. -/
theorem Rests.next (hr : Rests s) (hpg : s.l1d.regs.pend.pg = false)
    (hc : s.core.state = .flushForHalt ∨ s.core.state = .wholeFlush ∧ s.core.quiet = true) :
    Rests (s.next g i) := by
  have hstep := l1d_step h (i := i)
  exact ⟨hr.calm.next hstep h.pipe (coreReq_of_quiet hc) hpg,
    hr.empty.step (L1d.act_step hstep h.pipe hsane hsent haim) hr.calm⟩

/-- The core's next state while it waits for its caches. -/
theorem CoreAt.next_wait {t : CoreState} {whole cl pg f₁ f₂ : Bool}
    (hc : CoreAt s t whole cl pg f₁ f₂) (ht : t ≠ .active)
    (hf : ((f₁ || s.l1d.regs.flushComplete) && (f₂ || s.l2.regs.flushComplete)) = false) :
    CoreAt (s.next g i) t false false false (f₁ || s.l1d.regs.flushComplete)
      (f₂ || s.l2.regs.flushComplete) := by
  obtain ⟨c1, c2, c3, c4, c5, c6⟩ := hc
  subst c1 c5 c6
  cases hs : s.core.state
  case active => exact absurd hs ht
  all_goals
    constructor <;> simp only [next, CorePort.next, hs, hf, Bool.false_eq_true, if_false]

/-- The core goes on when both caches are done. -/
theorem CoreAt.next_done {t : CoreState} {whole cl pg f₁ f₂ : Bool}
    (hc : CoreAt s t whole cl pg f₁ f₂) (ht : t ≠ .active)
    (hf : ((f₁ || s.l1d.regs.flushComplete) && (f₂ || s.l2.regs.flushComplete)) = true) :
    CoreAt (s.next g i) .active false false false false false := by
  obtain ⟨c1, c2, c3, c4, c5, c6⟩ := hc
  subst c1 c5 c6
  cases hs : s.core.state
  case active => exact absurd hs ht
  all_goals
    constructor <;> simp only [next, CorePort.next, hs, hf, if_true]

theorem quiet_next (hs : s.core.state ≠ .active) (hq : s.core.quiet = true) :
    (s.next g i).core.quiet = true := by
  cases hst : s.core.state
  case active => exact absurd hst hs
  all_goals
    simp only [next, CorePort.next, hst, hq, Bool.true_or]
    split <;> rfl

/-- The L1D takes the pulses of the core in and goes on with what it does. -/
theorem L1dNext.noPulse {cache cl pg : Bool} {j : L1d.Job} {t : CoreState} {f₁ f₂ : Bool}
    (hn : L1dNext g s i cache cl pg j) (hc : CoreAt s t false false false f₁ f₂) :
    L1dAt (s.next g i) cache cl pg j false ∨
      j = .none ∧ (cache = true ∧ L1d.drained s.l1d (s.l1dPins i) = true ∧
          s.l1d.regs.state = .active ∧ (s.next g i).l1d.regs.gotReq = false ∧
          (s.next g i).l1d.regs.gotReq2 = false ∧ L1dAt (s.next g i) false cl pg .whole false ∨
        cl = true ∧ L1dAt (s.next g i) cache false pg .line false ∨
        pg = true ∧ L1dAt (s.next g i) cache cl false .line false) ∨
      j ≠ .none ∧ L1dAt (s.next g i) cache cl pg .none true := by
  cases hn with
  | keep h =>
    rw [hc.whole, hc.cl, hc.pg, Bool.or_false, Bool.or_false, Bool.or_false] at h
    exact .inl h
  | whole h0 hp hd hs hg hg2 h =>
    rw [hc.cl, hc.pg, Bool.or_false, Bool.or_false] at h
    exact .inr (.inl ⟨h0, .inl ⟨hp, hd, hs, hg, hg2, h⟩⟩)
  | cl h0 hp h =>
    rw [hc.whole, hc.pg, Bool.or_false, Bool.or_false] at h
    exact .inr (.inl ⟨h0, .inr (.inl ⟨hp, h⟩)⟩)
  | pg h0 hp h =>
    rw [hc.whole, hc.cl, Bool.or_false, Bool.or_false] at h
    exact .inr (.inl ⟨h0, .inr (.inr ⟨hp, h⟩)⟩)
  | finish h0 h =>
    rw [hc.whole, hc.cl, hc.pg, Bool.or_false, Bool.or_false, Bool.or_false] at h
    exact .inr (.inr ⟨h0, h⟩)

include h hm in
/-- An L1D with nothing to do for the core stays so. -/
theorem L1dAt.next_none {d : Bool} {t : CoreState} {f₁ f₂ : Bool}
    (h₁ : L1dAt s false false false .none d) (hc : CoreAt s t false false false f₁ f₂) :
    L1dAt (s.next g i) false false false .none false := by
  rcases (h₁.next h hm (i := i)).noPulse hc with h | ⟨-, ⟨hp, -⟩ | ⟨hp, -⟩ | ⟨hp, -⟩⟩ | ⟨h0, -⟩
  · exact h
  · cases hp
  · cases hp
  · cases hp
  · exact absurd rfl h0

include h hm in
/-- An L1D with a job either goes on with it or completes it. -/
theorem L1dAt.next_job {j : L1d.Job} {d : Bool} {t : CoreState} {f₁ f₂ : Bool}
    (h₁ : L1dAt s false false false j d) (hj : j ≠ .none)
    (hc : CoreAt s t false false false f₁ f₂) :
    L1dAt (s.next g i) false false false j false ∨
      L1dAt (s.next g i) false false false .none true := by
  rcases (h₁.next h hm (i := i)).noPulse hc with h | ⟨h0, -⟩ | ⟨-, h⟩
  · exact .inl h
  · exact absurd h0 hj
  · exact .inr h

include h in
/-- An L2 with no walk to make stays so. -/
theorem L2At.next_rest {d : Bool} (h₂ : L2At s false false d) (hr : s.core.flushReqL1d = false)
    (hi : s.l2.regs.state ≠ .init) :
    L2At (s.next g i) false false false ∧ (s.next g i).l2.regs.state ≠ .init := by
  rcases h₂.next h (i := i) with ⟨h', hn⟩ | ⟨hq, -⟩
  · simp only [hr, Bool.false_and, Bool.or_false, decide_eq_false hi, Bool.false_eq_true,
      if_false] at h'
    exact ⟨h', fun hs => hi (hn hs)⟩
  · cases hq

include h in
/-- An L2 that waits for the L1D starts its walk with the completion pulse. -/
theorem L2At.next_wait (h₂ : L2At s true false false) (hi : s.l2.regs.state ≠ .init) :
    L2At (s.next g i) (!s.l1d.regs.flushComplete) s.l1d.regs.flushComplete false ∧
      (s.next g i).l2.regs.state ≠ .init := by
  rcases h₂.next h (i := i) with ⟨h', hn⟩ | ⟨hq, -⟩
  · simp only [Bool.true_and, Bool.false_or, decide_eq_false hi, Bool.false_and, if_true] at h'
    exact ⟨h', fun hs => hi (hn hs)⟩
  · cases hq

include h in
/-- The L2 comes out of reset. -/
theorem L2At.next_init (h₂ : L2At s false false false) (hr : s.core.flushReqL1d = false)
    (hi : s.l2.regs.state = .init) :
    L2At (s.next g i) false false false ∧ (s.next g i).l2.regs.state = .init ∨
      L2At (s.next g i) false false true ∧ (s.next g i).l2.regs.state ≠ .init := by
  have hf : L2View.follows s.l2.view.regs.state (s.next g i).l2.view.regs.state = true :=
    (l2_step (g := g) (i := i) h.settled).follows
  have hf' : L2View.follows s.l2.regs.state (s.next g i).l2.regs.state = true := hf
  rw [hi] at hf'
  rcases h₂.next h (i := i) with ⟨h', -⟩ | ⟨hq, -⟩
  · simp only [hr, Bool.false_and, Bool.or_false, decide_eq_true hi, Bool.true_and,
      Bool.false_eq_true, if_false] at h'
    cases hs' : (s.next g i).l2.regs.state with
    | init =>
      rw [hs'] at h'
      exact .inl ⟨h', rfl⟩
    | idle =>
      rw [hs'] at h'
      exact .inr ⟨h', by decide⟩
    | _ =>
      rw [hs'] at hf'
      cases hf'
  · cases hq

end PhaseNext

theorem calm_of_job {p : L1d.Proto} (h : p.job = .whole) : L1d.calm p.behind = true := by
  rw [L1d.Proto.job] at h
  cases hb : p.behind with
  | flushCache | flushCacheWait | flushCacheLastWait => rfl
  | flushCl | flushClWait =>
    rw [hb, L1d.jobOf] at h
    split at h <;> cases h
  | _ =>
    rw [hb] at h
    cases h

/-- A drained L1D that starts its whole-cache walk is calm, and the core's stores are
performed. -/
theorem calm_of_start (hd : L1d.drained s.l1d (s.l1dPins i) = true)
    (hs : s.l1d.regs.state = .active) (hg : (s.next g i).l1d.regs.gotReq = false)
    (hg2 : (s.next g i).l1d.regs.gotReq2 = false)
    (hj : (s.next g i).l1d.regs.proto.job = .whole) (hc : s.core.state = .wholeFlush) :
    L1d.Calm (s.next g i).l1d ∧ (s.next g i).core.quiet = true := by
  simp only [L1d.drained, Bool.and_eq_true, Bool.not_eq_true', List.isEmpty_iff] at hd
  obtain ⟨⟨⟨⟨hmq, -⟩, h1⟩, h2⟩, hr⟩ := hd
  have hb : s.l1d.regs.proto.behind = .active := L1d.Proto.behind_eq hs (by decide)
  have hcalm : L1d.Calm s.l1d := ⟨hmq, h1, h2, by rw [hb]; rfl⟩
  refine ⟨⟨L1d.mq_next_nil hcalm, hg, hg2, calm_of_job hj⟩, ?_⟩
  have hr' : (i.retiredPending && !s.core.quiet) = false := hr
  have hq : (s.core.quiet || !i.retiredPending) = true := by
    revert hr'
    cases s.core.quiet <;> cases i.retiredPending <;> simp
  simp only [next, CorePort.next, hc, hq]
  split <;> rfl

section PhaseNext

variable (h : Wf g s) (hm : L1d.Marks s.l1d.regs.proto) (hsane : L1d.Sane g s.l1d.arr)
  (hsent : L1d.Sent g s.l1d.regs.proto s.l1d.arr) (haim : L1d.Aimed g s.l1d (s.l1dPins i))
  (hwalk : L1d.Walked g s.l1d.regs.proto s.l1d.arr)

include h hsane hsent haim hwalk in
/-- The walk leaves the L1D empty. -/
theorem empty_of_walk (hj : s.l1d.regs.proto.job = .whole)
    (hf : (s.next g i).l1d.regs.flushComplete = true) : L1d.Empty (s.next g i).l1d.arr := by
  have hstep := l1d_step h (i := i)
  have hs' := L1d.sane_step (L1d.act_step hstep h.pipe hsane hsent haim) hsane hsent
  have hw := (L1d.walked_step hstep h.pipe hwalk).2 hj hf
  intro j
  by_cases hlt : j < g.l1Sets
  · exact hw j hlt
  · cases hv : ((s.next g i).l1d.arr j).valid
    · rfl
    · exact absurd ((hs' j).2 hv) hlt

include h hm hsane hsent haim in
/-- Out of reset. -/
theorem Phase.next_boot {f₁ f₂ : Bool} (hc : CoreAt s .flushForHalt false false false f₁ f₂)
    (hr : Rests s)
    (h₁ : L1dAt s false false false .init false ∧ f₁ = false ∨
      L1dAt s false false false .none true ∧ f₁ = false ∨
      L1dAt s false false false .none false ∧ f₁ = true)
    (h₂ : L2At s false false false ∧ s.l2.regs.state = .init ∧ f₂ = false ∨
      L2At s false false true ∧ s.l2.regs.state ≠ .init ∧ f₂ = false ∨
      L2At s false false false ∧ s.l2.regs.state ≠ .init ∧ f₂ = true) :
    Phase (s.next g i) := by
  have hpg : s.l1d.regs.pend.pg = false := by
    rcases h₁ with ⟨h₁, -⟩ | ⟨h₁, -⟩ | ⟨h₁, -⟩ <;> exact h₁.pg
  have hr' := hr.next h hsane hsent haim hpg (.inl hc.state)
  -- what the L1D and the L2 have reported
  have k₁ : (f₁ || s.l1d.regs.flushComplete) = false ∧
        (L1dAt (s.next g i) false false false .init false ∨
          L1dAt (s.next g i) false false false .none true) ∨
      (f₁ || s.l1d.regs.flushComplete) = true ∧
        L1dAt (s.next g i) false false false .none false := by
    rcases h₁ with ⟨h₁, rfl⟩ | ⟨h₁, rfl⟩ | ⟨h₁, rfl⟩
    · exact .inl ⟨h₁.done, h₁.next_job h hm nofun hc⟩
    · exact .inr ⟨h₁.done, h₁.next_none h hm hc⟩
    · exact .inr ⟨rfl, h₁.next_none h hm hc⟩
  have k₂ : (f₂ || s.l2.regs.flushComplete) = false ∧
        (L2At (s.next g i) false false false ∧ (s.next g i).l2.regs.state = .init ∨
          L2At (s.next g i) false false true ∧ (s.next g i).l2.regs.state ≠ .init) ∨
      (f₂ || s.l2.regs.flushComplete) = true ∧
        L2At (s.next g i) false false false ∧ (s.next g i).l2.regs.state ≠ .init := by
    rcases h₂ with ⟨h₂, hi, rfl⟩ | ⟨h₂, hi, rfl⟩ | ⟨h₂, hi, rfl⟩
    · exact .inl ⟨h₂.done, h₂.next_init h hc.whole hi⟩
    · exact .inr ⟨h₂.done, h₂.next_rest h hc.whole hi⟩
    · exact .inr ⟨rfl, h₂.next_rest h hc.whole hi⟩
  by_cases hf : ((f₁ || s.l1d.regs.flushComplete) && (f₂ || s.l2.regs.flushComplete)) = true
  · rw [Bool.and_eq_true] at hf
    have hc' := hc.next_done (g := g) (i := i) nofun (by rw [hf.1, hf.2]; rfl)
    rcases k₁ with ⟨h1, -⟩ | ⟨-, h1⟩
    · rw [hf.1] at h1
      cases h1
    rcases k₂ with ⟨h2, -⟩ | ⟨-, h2, hi⟩
    · rw [hf.2] at h2
      cases h2
    exact .active hc' h1 h2 hi
  · have hc' := hc.next_wait (g := g) (i := i) nofun (Bool.eq_false_iff.mpr hf)
    refine .boot _ _ hc' hr' ?_ ?_
    · rcases k₁ with ⟨h1, h1' | h1'⟩ | ⟨h1, h1'⟩
      · exact .inl ⟨h1', h1⟩
      · exact .inr (.inl ⟨h1', h1⟩)
      · exact .inr (.inr ⟨h1', h1⟩)
    · rcases k₂ with ⟨h2, ⟨h2', hi⟩ | ⟨h2', hi⟩⟩ | ⟨h2, h2', hi⟩
      · exact .inl ⟨h2', hi, h2⟩
      · exact .inr (.inl ⟨h2', hi, h2⟩)
      · exact .inr (.inr ⟨h2', hi, h2⟩)

include h hm in
/-- The core may start an operation. -/
theorem Phase.next_active (hc : CoreAt s .active false false false false false)
    (h₁ : L1dAt s false false false .none false) (h₂ : L2At s false false false)
    (hi : s.l2.regs.state ≠ .init) : Phase (s.next g i) := by
  have h₁' := h₁.next_none h hm hc (i := i)
  obtain ⟨h₂', hi'⟩ := h₂.next_rest h hc.whole hi (i := i)
  have e1 : (s.core.l1dFlushComplete || s.l1d.regs.flushComplete) = false := by
    rw [hc.l1d, h₁.done]
    rfl
  have e2 : (s.core.l2FlushComplete || s.l2.regs.flushComplete) = false := by
    rw [hc.l2, h₂.done]
    rfl
  cases hop : i.coreOp with
  | none =>
    refine .active ?_ h₁' h₂' hi'
    constructor <;> simp only [next, CorePort.next, hc.state, hop, e1, e2]
  | whole =>
    refine .wholePulse ?_ h₁' h₂' hi'
    constructor <;> simp only [next, CorePort.next, hc.state, hop, e1, e2]
  | line x v =>
    refine .line true false ?_ (.inl ⟨rfl, h₁'⟩) h₂' hi'
    constructor <;> simp only [next, CorePort.next, hc.state, hop, e1]
  | page x v =>
    refine .line false true ?_ (.inl ⟨rfl, h₁'⟩) h₂' hi'
    constructor <;> simp only [next, CorePort.next, hc.state, hop, e1]

include h hm in
/-- A line or page operation. -/
theorem Phase.next_line {cl pg : Bool} (hc : CoreAt s .lineFlush false cl pg false true)
    (h₁ : pg = !cl ∧ L1dAt s false false false .none false ∨
      (cl = false ∧ pg = false) ∧ (L1dAt s false true false .none false ∨
        L1dAt s false false true .none false ∨ L1dAt s false false false .line false ∨
        L1dAt s false false false .none true))
    (h₂ : L2At s false false false) (hi : s.l2.regs.state ≠ .init) : Phase (s.next g i) := by
  obtain ⟨h₂', hi'⟩ := h₂.next_rest h hc.whole hi (i := i)
  have hwait : s.l1d.regs.flushComplete = false →
      CoreAt (s.next g i) .lineFlush false false false false true := by
    intro hd
    have hc' := hc.next_wait (g := g) (i := i) nofun (by rw [hd]; rfl)
    rw [hd] at hc'
    exact hc'
  rcases h₁ with ⟨hp, h₁⟩ | ⟨⟨rfl, rfl⟩, h₁ | h₁ | h₁ | h₁⟩
  · -- the L1D latches the request
    refine .line false false (hwait h₁.done) (.inr ⟨⟨rfl, rfl⟩, ?_⟩) h₂' hi'
    cases h₁.next h hm (i := i) with
    | keep h' =>
      rw [hc.whole, hc.cl, hc.pg, hp] at h'
      cases cl
      · exact .inr (.inl h')
      · exact .inl h'
    | whole _ hx | cl _ hx | pg _ hx => cases hx
    | finish h0 => exact absurd rfl h0
  · refine .line false false (hwait h₁.done) (.inr ⟨⟨rfl, rfl⟩, ?_⟩) h₂' hi'
    rcases (h₁.next h hm (i := i)).noPulse hc with h' | ⟨-, ⟨hx, -⟩ | ⟨-, h'⟩ | ⟨hx, -⟩⟩ | ⟨h0, -⟩
    · exact .inl h'
    · cases hx
    · exact .inr (.inr (.inl h'))
    · cases hx
    · exact absurd rfl h0
  · refine .line false false (hwait h₁.done) (.inr ⟨⟨rfl, rfl⟩, ?_⟩) h₂' hi'
    rcases (h₁.next h hm (i := i)).noPulse hc with h' | ⟨-, ⟨hx, -⟩ | ⟨hx, -⟩ | ⟨-, h'⟩⟩ | ⟨h0, -⟩
    · exact .inr (.inl h')
    · cases hx
    · cases hx
    · exact .inr (.inr (.inl h'))
    · exact absurd rfl h0
  · refine .line false false (hwait h₁.done) (.inr ⟨⟨rfl, rfl⟩, ?_⟩) h₂' hi'
    rcases h₁.next_job h hm nofun hc (i := i) with h' | h'
    · exact .inr (.inr (.inl h'))
    · exact .inr (.inr (.inr h'))
  · have hc' := hc.next_done (g := g) (i := i) nofun (by rw [h₁.done]; rfl)
    exact .active hc' (h₁.next_none h hm hc) h₂' hi'

include h hm hsane hsent haim hwalk in
/-- A clock edge moves the operation on. -/
theorem phase_next (hph : Phase s) : Phase (s.next g i) := by
  cases hph with
  | boot f₁ f₂ hc hr h₁ h₂ => exact Phase.next_boot h hm hsane hsent haim hc hr h₁ h₂
  | active hc h₁ h₂ hi => exact Phase.next_active h hm hc h₁ h₂ hi
  | line cl pg hc h₁ h₂ hi => exact Phase.next_line h hm hc h₁ h₂ hi
  | wholePulse hc h₁ h₂ hi =>
    have hc' := hc.next_wait (g := g) (i := i) nofun (by rw [h₁.done]; rfl)
    rw [h₁.done, h₂.done] at hc'
    have h₁' : L1dAt (s.next g i) true false false .none false := by
      cases h₁.next h hm (i := i) with
      | keep h' =>
        rw [hc.whole, hc.cl, hc.pg] at h'
        exact h'
      | whole _ hx | cl _ hx | pg _ hx => cases hx
      | finish h0 => exact absurd rfl h0
    rcases h₂.next h (i := i) with ⟨h₂', hn⟩ | ⟨hq, -⟩
    · simp only [hc.whole, Bool.false_and, Bool.or_false, decide_eq_false hi, Bool.false_eq_true,
        if_false] at h₂'
      exact .wholePend hc' h₁' h₂' fun hs => hi (hn hs)
    · cases hq
  | wholePend hc h₁ h₂ hi =>
    have hc' := hc.next_wait (g := g) (i := i) nofun (by rw [h₁.done]; rfl)
    rw [h₁.done, h₂.done] at hc'
    obtain ⟨h₂', hi'⟩ := h₂.next_wait h hi (i := i)
    rw [h₁.done] at h₂'
    rcases (h₁.next h hm (i := i)).noPulse hc with
      h' | ⟨-, ⟨-, hd, hs, hg, hg2, h'⟩ | ⟨hx, -⟩ | ⟨hx, -⟩⟩ | ⟨h0, -⟩
    · exact .wholePend hc' h' h₂' hi'
    · obtain ⟨hcalm, hq⟩ := calm_of_start hd hs hg hg2 h'.job hc.state
      exact .wholeWork hc' hq hcalm h' h₂' hi'
    · cases hx
    · cases hx
    · exact absurd rfl h0
  | wholeWork hc hq hr h₁ h₂ hi =>
    have hc' := hc.next_wait (g := g) (i := i) nofun (by rw [h₁.done]; rfl)
    rw [h₁.done, h₂.done] at hc'
    obtain ⟨h₂', hi'⟩ := h₂.next_wait h hi (i := i)
    rw [h₁.done] at h₂'
    have hq' := quiet_next (g := g) (i := i) (by rw [hc.state]; nofun) hq
    have hr' := hr.next (l1d_step h (i := i)) h.pipe (coreReq_of_quiet (.inr ⟨hc.state, hq⟩)) h₁.pg
    rcases h₁.next_job h hm nofun hc (i := i) with h₁' | h₁'
    · exact .wholeWork hc' hq' hr' h₁' h₂' hi'
    · exact .wholeDone hc' hq' ⟨hr', empty_of_walk h hsane hsent haim hwalk h₁.job h₁'.done⟩ h₁'
        h₂' hi'
  | wholeDone hc hq hr h₁ h₂ hi =>
    have hc' := hc.next_wait (g := g) (i := i) nofun (by rw [h₁.done, h₂.done]; rfl)
    rw [h₁.done, h₂.done] at hc'
    obtain ⟨h₂', hi'⟩ := h₂.next_wait h hi (i := i)
    rw [h₁.done] at h₂'
    have hq' := quiet_next (g := g) (i := i) (by rw [hc.state]; nofun) hq
    exact .walk hc' hq' (hr.next h hsane hsent haim h₁.pg (.inr ⟨hc.state, hq⟩))
      (h₁.next_none h hm hc) h₂' hi'
  | walk hc hq hr h₁ h₂ hi =>
    have hc' := hc.next_wait (g := g) (i := i) nofun (by rw [h₂.done]; simp)
    rw [h₁.done, h₂.done] at hc'
    have hq' := quiet_next (g := g) (i := i) (by rw [hc.state]; nofun) hq
    have hr' := hr.next h hsane hsent haim h₁.pg (.inr ⟨hc.state, hq⟩)
    have h₁' := h₁.next_none h hm hc (i := i)
    rcases h₂.next h (i := i) with ⟨h₂', hn⟩ | ⟨-, h₂', hs'⟩
    · simp only [hc.whole, Bool.true_or, decide_eq_false hi, Bool.false_and, Bool.false_eq_true,
        if_false] at h₂'
      exact .walk hc' hq' hr' h₁' h₂' fun hs => hi (hn hs)
    · simp only [hc.whole, Bool.false_eq_true, if_false] at h₂'
      exact .walkDone hc' hq' hr' h₁' h₂' (by rw [hs']; decide)
  | walkDone hc hq hr h₁ h₂ hi =>
    have hc' := hc.next_done (g := g) (i := i) nofun (by rw [h₂.done]; simp)
    obtain ⟨h₂', hi'⟩ := h₂.next_rest h hc.whole hi (i := i)
    exact .active hc' (h₁.next_none h hm hc) h₂' hi'

end PhaseNext

/-- Reset starts both caches. -/
theorem phase_reset (c : Contents) (nocache : Bool) : Phase (reset c nocache) := by
  refine .boot false false ⟨rfl, rfl, rfl, rfl, rfl, rfl⟩ ⟨⟨rfl, rfl, rfl, rfl⟩, fun _ => rfl⟩
    (.inl ⟨⟨rfl, rfl, rfl, rfl, rfl⟩, rfl⟩) (.inl ⟨⟨rfl, rfl, rfl, rfl, rfl, rfl, rfl, ?_⟩, rfl, rfl⟩)
  exact nofun

end Hier

end R9999
