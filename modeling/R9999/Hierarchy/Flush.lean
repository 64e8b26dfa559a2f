import R9999.Hw.Run
import R9999.L2.View

/-!
# The two flush sequencers

A flush of the L1 caches is followed by two machines: the one inside `l2.sv`, which asks
the L2 for its writeback walk once the L1 caches are done, and the sequencer of
`core_l1d_l1i.sv`, which holds `in_flush_mode` until the L2 is done.  Both latch the same
one-cycle request and completion pulses.

A log beside them says what each owes: whether a sequence with an L1D flush waits for its
walk, which indices the walk has passed since, and which requests have come while a
sequence was in flight.
-/

namespace R9999

/-! ## The sequencer of the hierarchy -/

namespace FlushSeq

/-- `flush_state_t` of the sequencer. -/
inductive State where
  | flushIdle | waitForL1dL1i | gotL1d | gotL1i | flushL2
  deriving DecidableEq, Repr

end FlushSeq

/-- The registers of the sequencer. -/
structure FlushSeq where
  state : FlushSeq.State
  flush : Bool
  flushL2 : Bool
  extPend : Bool
  extCov : Bool
  extDone : Bool
  reqL1iL : Bool
  reqL1dL : Bool
  dnL1i : Bool
  dnL1d : Bool
  deriving DecidableEq, Repr

namespace FlushSeq

/-- The sequencer after reset. -/
def reset : FlushSeq :=
  ⟨.flushIdle, false, false, false, false, false, false, false, false, false⟩

/-- The request and completion latches with the pulses of this cycle. -/
def latch (r : FlushSeq) (i : L2.Input) : FlushSeq :=
  { r with
    flushL2 := false
    extDone := false
    reqL1iL := r.reqL1iL || i.l1iFlushReq || r.extPend
    reqL1dL := r.reqL1dL || i.l1dFlushReq || r.extPend
    dnL1i := r.dnL1i || i.l1iFlushComplete
    dnL1d := r.dnL1d || i.l1dFlushComplete }

/-- `FLUSH_IDLE`: start a sequence for the requests that are latched. -/
def flushIdle (n : FlushSeq) : FlushSeq :=
  let n := { n with dnL1i := false, dnL1d := false }
  let n := if n.reqL1iL || n.reqL1dL then { n with extCov := n.extPend } else n
  if n.reqL1iL && n.reqL1dL then { n with state := .waitForL1dL1i, flush := true }
  else if n.reqL1iL && !n.reqL1dL then { n with state := .gotL1d, flush := true }
  else if !n.reqL1iL && n.reqL1dL then { n with state := .gotL1i, flush := true }
  else n

/-- Go on to the L2. -/
def toL2 (n : FlushSeq) : FlushSeq := { n with state := .flushL2, flushL2 := true }

/-- `WAIT_FOR_L1D_L1I`. -/
def waitForL1dL1i (n : FlushSeq) : FlushSeq :=
  if n.dnL1d && !n.dnL1i then { n with state := .gotL1d }
  else if !n.dnL1d && n.dnL1i then { n with state := .gotL1i }
  else if n.dnL1d && n.dnL1i then toL2 n
  else n

/-- The end of a sequence clears every latch. -/
def finish (n : FlushSeq) : FlushSeq :=
  { n with
    flush := false, state := .flushIdle, reqL1iL := false, reqL1dL := false, dnL1i := false
    dnL1d := false }

/-- `GOT_L1D`: an L1I-only sequence does not go on to the L2. -/
def gotL1d (n : FlushSeq) : FlushSeq := if n.dnL1i then finish n else n

/-- `GOT_L1I`. -/
def gotL1i (n : FlushSeq) : FlushSeq := if n.dnL1d then toL2 n else n

/-- `FLUSH_L2`: wait for the L2. -/
def waitL2 (l2FlushComplete : Bool) (n : FlushSeq) : FlushSeq :=
  if l2FlushComplete then
    finish (if n.extCov then { n with extDone := true, extPend := false, extCov := false } else n)
  else n

/-- One clock edge. -/
def next (r : FlushSeq) (i : L2.Input) (l2FlushComplete : Bool) : FlushSeq :=
  match r.state with
  | .flushIdle => flushIdle (latch r i)
  | .waitForL1dL1i => waitForL1dL1i (latch r i)
  | .gotL1d => gotL1d (latch r i)
  | .gotL1i => gotL1i (latch r i)
  | .flushL2 => waitL2 l2FlushComplete (latch r i)

end FlushSeq

/-! ## The two machines and their log -/

/-- What the machines owe. -/
structure FlushLog where
  /-- The L2's sequence in flight includes an L1D flush request. -/
  part : Bool
  /-- A sequence with an L1D flush has asked for its walk and was not yet answered. -/
  owed : Bool
  /-- The indices that the walk has passed since, oldest first. -/
  seen : List Nat
  /-- The sequencer's sequence in flight includes an L1D flush request. -/
  inFlight : Bool
  /-- An L1I or L1D request has come while a sequence was in flight. -/
  lateI : Bool
  lateD : Bool

structure FlushSys where
  l2 : L2
  seq : FlushSeq
  log : FlushLog

namespace FlushSys

variable (g : Geometry) (s : FlushSys) (i : L2.Input)

/-- A sequence with an L1D flush asks for its walk. -/
def asks : Bool := (L2.flushComb s.l2.regs i).l2FlushReq && (s.log.part || i.l1dFlushReq)

/-- The L2 completes a flush, and not its initialisation. -/
def completes : Bool :=
  (s.l2.next g i).regs.flushComplete && !decide (s.l2.regs.state = .init)

/-- The states of the walk. -/
def walking (t : L2.State) : Bool :=
  decide (t = .flushWait) || decide (t = .flushTriage) || decide (t = .flushStore)

/-- The walk leaves an index: its line was clean, or has been written back. -/
def passes : Bool :=
  (decide (s.l2.regs.state = .flushTriage) || decide (s.l2.regs.state = .flushStore)) &&
    (decide ((s.l2.next g i).regs.state = .flushWait) ||
      decide ((s.l2.next g i).regs.state = .idle))

/-- The indices that the walk has passed at the end of the cycle. -/
def seenNext : List Nat :=
  if asks s i then [] else if passes g s i then s.log.seen ++ [s.l2.regs.idx] else s.log.seen

/-- The next log. -/
def logNext : FlushLog where
  part := !(L2.flushComb s.l2.regs i).l2FlushReq && (s.log.part || i.l1dFlushReq)
  owed := (s.log.owed || asks s i) && !completes g s i
  seen := seenNext g s i
  inFlight := if s.seq.state = .flushIdle then (s.seq.latch i).reqL1dL else s.log.inFlight
  lateI := !decide (s.seq.state = .flushIdle) && (s.log.lateI || i.l1iFlushReq)
  lateD := !decide (s.seq.state = .flushIdle) && (s.log.lateD || i.l1dFlushReq)

/-- One clock edge. -/
def next : FlushSys where
  l2 := s.l2.next g i
  seq := s.seq.next i s.l2.regs.flushComplete
  log := logNext g s i

/-- The release of reset: the RAMs of the L2 hold anything. -/
def reset (dataRam0 : Hw.RegRam Line) (tagRam : Hw.RegRam Nat)
    (validRam dirtyRam : Hw.RegRam Bool) (presRam : Hw.RegRam Pres) : FlushSys where
  l2 := ⟨L2.resetRegs, dataRam0, tagRam, validRam, dirtyRam, presRam⟩
  seq := FlushSeq.reset
  log := ⟨false, false, [], false, false, false⟩

/-- What a cycle owes its flush requests. -/
structure Law : Prop where
  /-- A flush that was asked for with an L1D flush is complete only after the walk. -/
  walk : completes g s i = true → (s.log.owed || asks s i) = true →
    seenNext g s i = List.range g.l2Lines
  /-- Until then it is pending, and its walk is not skipped. -/
  kept : (next g s i).log.owed = true →
    (next g s i).l2.regs.flushReq = true ∧ (next g s i).l2.regs.flushSkip = false
  /-- The skip flag belongs to a pending flush that has no L1D flush. -/
  skip : (next g s i).l2.regs.flushSkip = true →
    (next g s i).l2.regs.flushReq = true ∧ (next g s i).log.owed = false
  /-- The flush mode lasts until the L2 completes. -/
  mode : s.seq.flush = true → s.log.inFlight = true → (next g s i).seq.flush = false →
    s.l2.regs.flushComplete = true
  /-- A request that comes in a sequence stays latched after it. -/
  late : ((next g s i).log.lateI = true → (next g s i).seq.reqL1iL = true) ∧
    ((next g s i).log.lateD = true → (next g s i).seq.reqL1dL = true)

/-- The condition on a cycle.  An L2 sequence ends only while no L2 flush is pending, or
joins one of its own kind that has not begun its walk; no request comes while a sequence
is in flight; and the L1D does not finish before an L1I that is flushed with it. -/
structure Holds : Prop where
  ends : (L2.flushComb s.l2.regs i).l2FlushReq = true →
    s.l2.regs.flushReq = false ∨ walking s.l2.regs.state = false ∧
      s.l2.regs.flushSkip = (L2.flushComb s.l2.regs i).l2SkipWalk
  quiet : s.seq.state ≠ .flushIdle → i.l1iFlushReq = false ∧ i.l1dFlushReq = false
  order : s.seq.state = .waitForL1dL1i → (s.seq.latch i).dnL1d = true →
    (s.seq.latch i).dnL1i = true

/-! ## The L2's side -/

section Walk

open L2 L2View

variable {g : Geometry} {i : L2.Input}

/-- What a cycle does to a pending flush: the request and the skip flag, with those of this
cycle, are `tick`'s. -/
inductive FlushTurn (g : Geometry) (r : Regs) (i : L2.Input) (r' : Regs) : Prop
  | skip (hs : r.state = .idle) (hk : (tick r i).flushSkip = true) (hn : r'.state = .idle)
      (hc : r'.flushComplete = true) (hreq : r'.flushReq = false)
      (hskip : r'.flushSkip = false) (hreq' : (tick r i).flushReq = true)
  | start (hs : r.state = .idle) (hk : (tick r i).flushSkip = false) (hn : r'.state = .flushWait)
      (hc : r'.flushComplete = false) (hx : r'.idx = 0)
      (hreq : r'.flushReq = (tick r i).flushReq) (hskip : r'.flushSkip = (tick r i).flushSkip)
      (hreq' : (tick r i).flushReq = true)
  | stay (hs : walking r.state = true) (hn : r'.state = .flushTriage ∨ r'.state = .flushStore)
      (hc : r'.flushComplete = false) (hx : r'.idx = r.idx)
      (hreq : r'.flushReq = (tick r i).flushReq) (hskip : r'.flushSkip = (tick r i).flushSkip)
  | pass (hs : r.state = .flushTriage ∨ r.state = .flushStore) (hn : r'.state = .flushWait)
      (hc : r'.flushComplete = false) (hlast : r.idx ≠ g.l2Lines - 1)
      (hx : r'.idx = g.l2Succ r.idx) (hreq : r'.flushReq = (tick r i).flushReq)
      (hskip : r'.flushSkip = (tick r i).flushSkip)
  | done (hs : r.state = .flushTriage ∨ r.state = .flushStore) (hn : r'.state = .idle)
      (hc : r'.flushComplete = true) (hlast : r.idx = g.l2Lines - 1) (hreq : r'.flushReq = false)
      (hskip : r'.flushSkip = (tick r i).flushSkip)
  | other (hs : walking r.state = false) (hn : walking r'.state = false)
      (hc : r.state = .init ∨ r'.flushComplete = false)
      (hreq : r'.flushReq = (tick r i).flushReq) (hskip : r'.flushSkip = (tick r i).flushSkip)

/-- The registers step as those of a view that shows the outputs of the RAMs. -/
theorem regs_step (g : Geometry) (s : L2) (i : L2.Input) :
    ∃ v', Step g ⟨s.regs, fun _ => s.wires⟩ i v' ∧ v'.regs = (s.next g i).regs := by
  refine ⟨_, step_next g ⟨s.regs, fun _ => s.wires⟩ i, ?_⟩
  simp only [L2View.next]
  split <;> rfl

theorem hadL1d_next (g : Geometry) (s : L2) (i : L2.Input) :
    (s.next g i).regs.hadL1d = (flushComb s.regs i).hadL1d := by
  obtain ⟨v', hstep, hregs⟩ := regs_step g s i
  rw [← hregs]
  cases hstep <;> rfl

theorem flushTurn (g : Geometry) (s : L2) (i : L2.Input) :
    FlushTurn g s.regs i (s.next g i).regs := by
  obtain ⟨v', hstep, hregs⟩ := regs_step g s i
  rw [← hregs]
  cases hstep with
  | idleFlushSkip hs hf hk => exact .skip hs hk hs rfl rfl rfl hf
  | idleFlush hs hf hk => exact .start hs hk rfl rfl rfl rfl rfl hf
  | flushWait hs => exact .stay (by rw [hs]; rfl) (.inl rfl) rfl rfl rfl rfl
  | flushTriageWb hs => exact .stay (by rw [hs]; rfl) (.inr rfl) rfl rfl rfl rfl
  | memWait hs =>
    by_cases hst : s.regs.state = .flushStore
    · exact .stay (by rw [hst]; rfl) (.inr hst) rfl rfl rfl rfl
    · have hw : walking s.regs.state = false := by
        cases hst' : s.regs.state <;> simp_all [memWaiting, walking]
      exact .other hw hw (.inr rfl) rfl rfl
  | flushTriageNext hs _ hx => exact .pass (.inl hs) rfl rfl hx rfl rfl rfl
  | flushStoreNext hs _ hx => exact .pass (.inr hs) rfl rfl hx rfl rfl rfl
  | flushTriageLast hs _ hx => exact .done (.inl hs) rfl rfl hx rfl rfl
  | flushStoreLast hs _ hx => exact .done (.inr hs) rfl rfl hx rfl rfl
  | init hs | initLast hs =>
    have hw : walking s.regs.state = false := by rw [hs]; rfl
    first
    | exact .other hw hw (.inl hs) rfl rfl
    | exact .other hw rfl (.inl hs) rfl rfl
  | uncachedHit hs | uncachedMiss hs | turnaroundIssue hs =>
    have hw : walking s.regs.state = false := by rw [hs]; rfl
    refine .other hw ?_ (.inr rfl) rfl rfl
    change walking (uncachedState s.regs) = false
    unfold uncachedState
    split <;> rfl
  | _ hs =>
    have hw : walking s.regs.state = false := by rw [hs]; rfl
    first
    | exact .other hw hw (.inr rfl) rfl rfl
    | exact .other hw rfl (.inr rfl) rfl rfl

/-- The invariant of the L2's side. -/
structure WalkInv (g : Geometry) (r : Regs) (l : FlushLog) : Prop where
  part : l.part = r.hadL1d
  skip : r.flushSkip = true → r.flushReq = true
  owed : l.owed = (r.flushReq && !r.flushSkip)
  walk : walking r.state = true → r.flushReq = true ∧ r.flushSkip = false ∧
    r.idx < g.l2Lines ∧ l.seen = List.range r.idx
  /-- A walk that has not begun has passed no index. -/
  waits : walking r.state = false → l.owed = true → l.seen = []

variable {s : FlushSys}

theorem flushComb_spec (r : Regs) (i : L2.Input) :
    (flushComb r i).hadL1d = (!(flushComb r i).l2FlushReq && (r.hadL1d || i.l1dFlushReq)) ∧
      ((flushComb r i).l2FlushReq = true →
        (flushComb r i).l2SkipWalk = !(r.hadL1d || i.l1dFlushReq)) := by
  unfold flushComb
  dsimp only
  split
  · simp
  · repeat' split
    all_goals simp

/-- With the requests of this cycle, a flush is owed exactly when one is pending that is not
to be skipped, and a walk in progress gets no other. -/
theorem asked (h : WalkInv g s.l2.regs s.log) (hok : Holds s i) :
    (s.log.owed || asks s i) =
        ((tick s.l2.regs i).flushReq && !(tick s.l2.regs i).flushSkip) ∧
      ((tick s.l2.regs i).flushSkip = true → (tick s.l2.regs i).flushReq = true) ∧
      (walking s.l2.regs.state = true → asks s i = false ∧
        (tick s.l2.regs i).flushReq = true ∧ (tick s.l2.regs i).flushSkip = false) := by
  have hends := hok.ends
  have hskip := h.skip
  have hsk := (flushComb_spec s.l2.regs i).2
  have hreq : (tick s.l2.regs i).flushReq =
      (s.l2.regs.flushReq || (flushComb s.l2.regs i).l2FlushReq) := rfl
  have hflag : (tick s.l2.regs i).flushSkip = (s.l2.regs.flushSkip ||
      ((flushComb s.l2.regs i).l2FlushReq && (flushComb s.l2.regs i).l2SkipWalk)) := rfl
  rw [hreq, hflag, asks, h.owed, h.part]
  cases hf : (flushComb s.l2.regs i).l2FlushReq with
  | false =>
    refine ⟨by simp, by simpa using hskip, fun hw => ?_⟩
    obtain ⟨h1, h2, -⟩ := h.walk hw
    simp [h1, h2]
  | true =>
    rw [hsk hf]
    obtain hnone | ⟨hw, hkind⟩ := hends hf
    · have hns : s.l2.regs.flushSkip = false := by
        cases hb : s.l2.regs.flushSkip with
        | false => rfl
        | true => exact (hnone.symm.trans (hskip hb)).symm
      refine ⟨by simp [hnone, hns], by simp, fun hwalk => ?_⟩
      rw [(h.walk hwalk).1] at hnone
      cases hnone
    · rw [hsk hf] at hkind
      refine ⟨?_, by simp, fun hwalk => ?_⟩
      · cases hb : s.l2.regs.hadL1d || i.l1dFlushReq <;> simp_all
      · rw [hw] at hwalk
        cases hwalk

theorem walkInv_next (h : WalkInv g s.l2.regs s.log) (hok : Holds s i) :
    WalkInv g (s.next g i).l2.regs (s.next g i).log ∧
      (completes g s i = true → (s.log.owed || asks s i) = true →
        seenNext g s i = List.range g.l2Lines) := by
  obtain ⟨howed, hskip, hwalk⟩ := asked h hok
  have hpart : (s.next g i).log.part = (s.next g i).l2.regs.hadL1d := by
    have hhad : (s.next g i).l2.regs.hadL1d = (flushComb s.l2.regs i).hadL1d :=
      hadL1d_next g s.l2 i
    rw [hhad, (flushComb_spec s.l2.regs i).1, ← h.part]
    rfl
  have hown : (s.next g i).log.owed =
      ((s.log.owed || asks s i) && !((s.l2.next g i).regs.flushComplete &&
        !decide (s.l2.regs.state = .init))) := rfl
  have hseen : (s.next g i).log.seen = seenNext g s i := rfl
  have hturn := flushTurn g s.l2 i
  change WalkInv g (s.l2.next g i).regs (s.next g i).log ∧ _
  rw [howed] at hown
  have not_passes (hs : walking s.l2.regs.state = false) : passes g s i = false := by
    cases hst : s.l2.regs.state <;> simp [walking, passes, hst] at hs ⊢
  -- before the walk the log of passed indices is empty
  have seen_nil (hs : walking s.l2.regs.state = false) (ho : (s.log.owed || asks s i) = true) :
      seenNext g s i = [] := by
    unfold seenNext
    cases ha : asks s i with
    | true => rfl
    | false =>
      rw [ha, Bool.or_false] at ho
      simp [not_passes hs, h.waits hs ho]
  -- in the walk it grows by the index that is passed
  have seen_pass (hs : s.l2.regs.state = .flushTriage ∨ s.l2.regs.state = .flushStore)
      (hn : (s.l2.next g i).regs.state = .flushWait ∨ (s.l2.next g i).regs.state = .idle) :
      seenNext g s i = List.range (s.l2.regs.idx + 1) := by
    have hw : walking s.l2.regs.state = true := by obtain hs | hs := hs <;> rw [hs] <;> rfl
    have hp : passes g s i = true := by
      obtain hs | hs := hs <;> obtain hn | hn := hn <;> simp [passes, hs, hn]
    rw [seenNext, (hwalk hw).1, hp, (h.walk hw).2.2.2, List.range_succ]
    rfl
  cases hturn with
  | skip hs hk hn hc hreq hskip' hreq' =>
    have howe : (s.log.owed || asks s i) = false := by simp [howed, hk]
    refine ⟨⟨hpart, by simp [hskip'], ?_, ?_, ?_⟩, fun _ ho => ?_⟩
    · rw [hown, hreq, hk]
      simp
    · intro hw
      rw [hn] at hw
      cases hw
    · intro _ ho
      rw [hown, hk] at ho
      simp at ho
    · rw [howe] at ho
      cases ho
  | start hs hk hn hc hx hreq hskip' hreq' =>
    have howe : (s.log.owed || asks s i) = true := by simp [howed, hk, hreq']
    have hseen' := seen_nil (by rw [hs]; rfl) howe
    refine ⟨⟨hpart, by simp [hskip', hk], ?_, fun _ => ?_, ?_⟩, fun hcomp => ?_⟩
    · rw [hown, hc, hreq, hskip']
      simp
    · exact ⟨hreq.trans hreq', hskip'.trans hk, hx ▸ g.l2Lines_pos, by rw [hseen, hseen', hx]; rfl⟩
    · exact fun _ _ => hseen.trans hseen'
    · simp [completes, hc] at hcomp
  | stay hs hn hc hx hreq hskip' =>
    obtain ⟨hasks, hr, hk⟩ := hwalk hs
    obtain ⟨-, -, hlt, hrange⟩ := h.walk hs
    have hseen' : seenNext g s i = s.log.seen := by
      have hp : passes g s i = false := by obtain hn | hn := hn <;> simp [passes, hn]
      simp [seenNext, hasks, hp]
    refine ⟨⟨hpart, by simp [hskip', hk], ?_, fun _ => ?_, fun hw => ?_⟩, fun hcomp => ?_⟩
    · rw [hown, hc, hreq, hskip']
      simp
    · exact ⟨hreq.trans hr, hskip'.trans hk, hx ▸ hlt, by rw [hseen, hseen', hx, hrange]⟩
    · obtain hn | hn := hn <;> rw [hn] at hw <;> cases hw
    · simp [completes, hc] at hcomp
  | pass hs hn hc hlast hx hreq hskip' =>
    have hw : walking s.l2.regs.state = true := by obtain hs | hs := hs <;> rw [hs] <;> rfl
    obtain ⟨-, hr, hk⟩ := hwalk hw
    obtain ⟨-, -, hlt, -⟩ := h.walk hw
    have hsucc : (s.l2.next g i).regs.idx = s.l2.regs.idx + 1 := by
      rw [hx, Geometry.l2Succ, Nat.mod_eq_of_lt (by omega)]
    refine ⟨⟨hpart, by simp [hskip', hk], ?_, fun _ => ?_, fun hw => ?_⟩, fun hcomp => ?_⟩
    · rw [hown, hc, hreq, hskip']
      simp
    · exact ⟨hreq.trans hr, hskip'.trans hk, by omega,
        by rw [hseen, seen_pass hs (.inl hn), hsucc]⟩
    · rw [hn] at hw
      cases hw
    · simp [completes, hc] at hcomp
  | done hs hn hc hlast hreq hskip' =>
    have hw : walking s.l2.regs.state = true := by obtain hs | hs := hs <;> rw [hs] <;> rfl
    obtain ⟨-, hr, hk⟩ := hwalk hw
    obtain ⟨-, -, hlt, -⟩ := h.walk hw
    have hinit : s.l2.regs.state ≠ .init := by obtain hs | hs := hs <;> simp [hs]
    refine ⟨⟨hpart, by simp [hskip', hk], ?_, fun hw => ?_, fun _ ho => ?_⟩, fun _ _ => ?_⟩
    · rw [hown, hc, hreq]
      simp [hinit]
    · rw [hn] at hw
      cases hw
    · rw [hown, hc] at ho
      simp [hinit] at ho
    · rw [seen_pass hs (.inr hn), hlast]
      congr 1
      omega
  | other hs hn hc hreq hskip' =>
    have hcomp : ((s.l2.next g i).regs.flushComplete && !decide (s.l2.regs.state = .init)) =
        false := by
      obtain hc | hc := hc <;> simp [hc]
    rw [hcomp] at hown
    refine ⟨⟨hpart, ?_, ?_, fun hw => ?_, fun _ ho => ?_⟩, fun hcomp' => ?_⟩
    · rw [hskip', hreq]
      exact hskip
    · rw [hown, hreq, hskip']
      simp
    · rw [hn] at hw
      cases hw
    · rw [hown, ← howed] at ho
      exact hseen.trans (seen_nil hs (by simpa using ho))
    · rw [completes, hcomp] at hcomp'
      cases hcomp'

end Walk

/-! ## The sequencer's side -/

section Sequencer

variable {g : Geometry} {s : FlushSys} {i : L2.Input}

/-- The invariant of the sequencer's side. -/
structure SeqInv (r : FlushSeq) (l : FlushLog) : Prop where
  flush : r.flush = !decide (r.state = .flushIdle)
  ext : r.extPend = false
  idle : r.state = .flushIdle → r.reqL1iL = false ∧ r.reqL1dL = false
  /-- `GOT_L1D` waits only for an L1I that is flushed alone. -/
  only : r.state = .gotL1d → l.inFlight = false
  late : l.lateI = false ∧ l.lateD = false

theorem seqInv_finish {n : FlushSeq} {l : FlushLog} (he : n.extPend = false)
    (hl : l.lateI = false ∧ l.lateD = false) : SeqInv n.finish l where
  flush := rfl
  ext := he
  idle _ := ⟨rfl, rfl⟩
  only h := by cases h
  late := hl

/-- Every state but the idle one keeps a sequence in flight until it ends. -/
theorem seqInv_next (h : SeqInv s.seq s.log) (hok : Holds s i) :
    SeqInv (s.next g i).seq (s.next g i).log ∧
      (s.seq.flush = true → s.log.inFlight = true → (s.next g i).seq.flush = false →
        s.l2.regs.flushComplete = true) := by
  have hlate : (s.next g i).log.lateI = false ∧ (s.next g i).log.lateD = false := by
    change (!decide (s.seq.state = .flushIdle) && (s.log.lateI || i.l1iFlushReq)) = false ∧
      (!decide (s.seq.state = .flushIdle) && (s.log.lateD || i.l1dFlushReq)) = false
    by_cases hs : s.seq.state = .flushIdle
    · simp [hs]
    · simp [h.late, hok.quiet hs]
  have hseq : (s.next g i).seq = s.seq.next i s.l2.regs.flushComplete := rfl
  have hin : (s.next g i).log.inFlight =
      if s.seq.state = .flushIdle then (s.seq.latch i).reqL1dL else s.log.inFlight := rfl
  have hext : (s.seq.latch i).extPend = false := h.ext
  have hflush : (s.seq.latch i).flush = !decide (s.seq.state = .flushIdle) := h.flush
  have hstate : (s.seq.latch i).state = s.seq.state := rfl
  rw [hseq, FlushSeq.next]
  generalize hn : s.seq.latch i = n at hext hflush hstate hin
  cases hs : s.seq.state with
  | flushIdle =>
    have hidle : s.seq.flush = false := by simp [h.flush, hs]
    refine ⟨?_, fun hf => (Bool.false_ne_true (hidle.symm.trans hf)).elim⟩
    simp only [hs, if_true] at hin
    rw [hs] at hstate
    have hfl : n.flush = false := by simp [hflush, hs]
    cases hi : n.reqL1iL <;> cases hd : n.reqL1dL <;>
      simp only [FlushSeq.flushIdle, hi, hd, Bool.or_false, Bool.or_true, Bool.and_true,
        Bool.and_false, Bool.not_true, Bool.not_false, Bool.false_eq_true, if_true, if_false] <;>
      refine ⟨?_, hext, ?_, ?_, hlate⟩ <;> simp [hstate, hfl, hd, hin]
  | waitForL1dL1i =>
    have hfl : n.flush = true := by simp [hflush, hs]
    have horder := hok.order hs
    rw [hn] at horder
    rw [hs] at hstate
    have hkept : (s.next g i).log.inFlight = s.log.inFlight := by simp [hin, hs]
    show SeqInv n.waitForL1dL1i _ ∧ (_ → _ → n.waitForL1dL1i.flush = false → _)
    unfold FlushSeq.waitForL1dL1i
    cases hd : n.dnL1d with
    | true =>
      simp only [horder hd, Bool.not_true, Bool.and_false, Bool.and_true, Bool.false_eq_true,
        if_true, if_false]
      exact ⟨⟨by simp [FlushSeq.toL2, hfl], hext, nofun, nofun, hlate⟩,
        fun _ _ hf => by simp [FlushSeq.toL2, hfl] at hf⟩
    | false =>
      cases hi : n.dnL1i with
      | true =>
        refine ⟨⟨by simp [hfl], hext, nofun, nofun, hlate⟩,
          fun _ _ hf => ?_⟩
        simp [hfl] at hf
      | false =>
        refine ⟨⟨by simp [hfl, hstate], hext, fun h => ?_, fun h => ?_, hlate⟩,
          fun _ _ hf => ?_⟩
        · simp [hstate] at h
        · simp [hstate] at h
        · simp [hfl] at hf
  | gotL1d =>
    have hnot := h.only hs
    refine ⟨?_, fun _ hf => (Bool.false_ne_true (hnot.symm.trans hf)).elim⟩
    have hfl : n.flush = true := by simp [hflush, hs]
    rw [hs] at hstate
    show SeqInv n.gotL1d _
    unfold FlushSeq.gotL1d
    split
    · exact seqInv_finish hext hlate
    · refine ⟨by simp [hfl, hstate], hext, fun h => ?_, fun _ => ?_, hlate⟩
      · simp [hstate] at h
      · simp [hin, hs, hnot]
  | gotL1i =>
    have hfl : n.flush = true := by simp [hflush, hs]
    rw [hs] at hstate
    show SeqInv n.gotL1i _ ∧ (_ → _ → n.gotL1i.flush = false → _)
    unfold FlushSeq.gotL1i
    split
    · exact ⟨⟨by simp [FlushSeq.toL2, hfl], hext, nofun, nofun, hlate⟩,
        fun _ _ hf => by simp [FlushSeq.toL2, hfl] at hf⟩
    · refine ⟨⟨by simp [hfl, hstate], hext, fun h => ?_, fun h => ?_, hlate⟩,
        fun _ _ hf => ?_⟩
      · simp [hstate] at h
      · simp [hstate] at h
      · simp [hfl] at hf
  | flushL2 =>
    have hfl : n.flush = true := by simp [hflush, hs]
    rw [hs] at hstate
    show SeqInv (n.waitL2 s.l2.regs.flushComplete) _ ∧
      (_ → _ → (n.waitL2 s.l2.regs.flushComplete).flush = false → _)
    unfold FlushSeq.waitL2
    cases hc : s.l2.regs.flushComplete with
    | true =>
      refine ⟨?_, fun _ _ _ => rfl⟩
      simp only [if_true]
      split
      · exact seqInv_finish rfl hlate
      · exact seqInv_finish hext hlate
    | false =>
      refine ⟨⟨by simp [hfl, hstate], hext, fun h => ?_, fun h => ?_, hlate⟩,
        fun _ _ hf => ?_⟩
      · simp [hstate] at h
      · simp [hstate] at h
      · simp [hfl] at hf

end Sequencer

section Runs

variable {g : Geometry} {s : FlushSys} {i : L2.Input}

/-- The invariant of the runs that meet the condition. -/
structure Inv (g : Geometry) (s : FlushSys) : Prop where
  walk : WalkInv g s.l2.regs s.log
  seq : SeqInv s.seq s.log

theorem inv_next (h : Inv g s) (hok : Holds s i) : Inv g (s.next g i) :=
  ⟨(walkInv_next h.walk hok).1, (seqInv_next h.seq hok).1⟩

theorem law_of_inv (h : Inv g s) (hok : Holds s i) : Law g s i where
  walk := (walkInv_next h.walk hok).2
  kept ho := by
    have hinv := (walkInv_next h.walk hok).1
    simpa [hinv.owed] using ho
  skip hk := by
    have hinv := (walkInv_next h.walk hok).1
    exact ⟨hinv.skip hk, by simp [hinv.owed, hk]⟩
  mode := (seqInv_next h.seq hok).2
  late := by
    have hinv := (seqInv_next (g := g) h.seq hok).1
    simp [hinv.late]

theorem inv_reset (dataRam0 : Hw.RegRam Line) (tagRam : Hw.RegRam Nat)
    (validRam dirtyRam : Hw.RegRam Bool) (presRam : Hw.RegRam Pres) :
    Inv g (reset dataRam0 tagRam validRam dirtyRam presRam) where
  walk := ⟨rfl, nofun, rfl, nofun, fun _ _ => rfl⟩
  seq := ⟨rfl, rfl, fun _ => ⟨rfl, rfl⟩, nofun, ⟨rfl, rfl⟩⟩

end Runs

/-- In every run whose cycles meet the condition, no flush request is lost or
downgraded. -/
theorem flush_requests_kept (g : Geometry) (dataRam0 : Hw.RegRam Line) (tagRam : Hw.RegRam Nat)
    (validRam dirtyRam : Hw.RegRam Bool) (presRam : Hw.RegRam Pres) (is : List L2.Input)
    (hrun : Hw.RunOk (fun s i => next g s i) Holds
      (reset dataRam0 tagRam validRam dirtyRam presRam) is) (i : L2.Input)
    (hok : Holds
      (Hw.run (fun s i => next g s i) (reset dataRam0 tagRam validRam dirtyRam presRam) is) i) :
    Law g
      (Hw.run (fun s i => next g s i) (reset dataRam0 tagRam validRam dirtyRam presRam) is) i :=
  law_of_inv (hrun.invariant (fun _ _ h ok => inv_next h ok) (inv_reset _ _ _ _ _)) hok

instance : Decidable (Holds s i) :=
  decidable_of_iff
    (((L2.flushComb s.l2.regs i).l2FlushReq = true →
        s.l2.regs.flushReq = false ∨ walking s.l2.regs.state = false ∧
          s.l2.regs.flushSkip = (L2.flushComb s.l2.regs i).l2SkipWalk) ∧
      (s.seq.state ≠ .flushIdle → i.l1iFlushReq = false ∧ i.l1dFlushReq = false) ∧
      (s.seq.state = .waitForL1dL1i → (s.seq.latch i).dnL1d = true →
        (s.seq.latch i).dnL1i = true))
    ⟨fun h => ⟨h.1, h.2.1, h.2.2⟩, fun h => ⟨h.ends, h.quiet, h.order⟩⟩

/-- The smallest L2 that `machine.vh` has: four lines. -/
def fourLines : Geometry := ⟨4, 256, 2, 4, by decide, by decide, Nat.two_pos⟩

/-- A cycle in which nothing arrives. -/
def quiet : L2.Input where
  l1iFlushReq := false
  l1dFlushReq := false
  l1iFlushComplete := false
  l1dFlushComplete := false
  reqValid := false
  req := ⟨0, false, Mask.empty, Line.zero, .lb, false, 0⟩
  nocache := false
  memReqAck := false
  memRspValid := false
  memRspBad := false
  memRspLoadData := Line.zero
  snoopReqValid := false
  snoopReqAddr := 0
  snoopReqWbinv := false
  probeAck := false
  probeDirty := false
  probeData := Line.zero

/-- Reset with empty RAMs. -/
def start : FlushSys :=
  reset ⟨fun _ => Line.zero, 0, false, Line.zero, Line.zero⟩ ⟨fun _ => 0, 0, false, 0, 0⟩
    ⟨fun _ => false, 0, false, false, false⟩ ⟨fun _ => false, 0, false, false, false⟩
    ⟨fun _ => Pres.zero, 0, false, Pres.zero, Pres.zero⟩

/-- The initialisation, and both L1 caches are flushed, the L1I first. -/
def bothFlushed : List L2.Input :=
  [quiet, quiet, quiet, quiet, { quiet with l1iFlushReq := true, l1dFlushReq := true },
   { quiet with l1iFlushComplete := true }]

theorem flush_requests_kept_both : Hw.RunOk (fun s i => next fourLines s i) Holds start
      bothFlushed ∧
    Law fourLines (Hw.run (fun s i => next fourLines s i) start bothFlushed)
      { quiet with l1dFlushComplete := true } := by
  have hrun : Hw.RunOk (fun s i => next fourLines s i) Holds start bothFlushed := by
    decide +kernel
  exact ⟨hrun, flush_requests_kept fourLines _ _ _ _ _ bothFlushed hrun _ (by decide +kernel)⟩

/-- Both L1 caches are flushed, and the L1D finishes first. -/
def l1dFirst : List L2.Input :=
  [quiet, quiet, quiet, quiet, { quiet with l1iFlushReq := true, l1dFlushReq := true },
   { quiet with l1dFlushComplete := true }]

/-- An L1I flush comes during the walk of an L1D flush, and another L1D flush after it. -/
def skipSurvives : List L2.Input :=
  [quiet, quiet, quiet, quiet, { quiet with l1dFlushReq := true },
   { quiet with l1dFlushComplete := true }, quiet, { quiet with l1iFlushReq := true },
   { quiet with l1iFlushComplete := true }, quiet, quiet, quiet, quiet, quiet,
   { quiet with l1dFlushReq := true }]

/-- The flush mode ends before the L2 is done, and a walk is skipped that an L1D flush has
asked for. -/
theorem flush_requests_lost :
    ¬ Law fourLines (Hw.run (fun s i => next fourLines s i) start l1dFirst)
        { quiet with l1iFlushComplete := true } ∧
      ¬ Law fourLines (Hw.run (fun s i => next fourLines s i) start skipSurvives)
        { quiet with l1dFlushComplete := true } := by
  refine ⟨fun h => ?_, fun h => ?_⟩
  · have hdone := h.mode (by decide +kernel) (by decide +kernel) (by decide +kernel)
    revert hdone
    decide +kernel
  · have hseen := h.walk (by decide +kernel) (by decide +kernel)
    revert hseen
    decide +kernel

end FlushSys

end R9999
