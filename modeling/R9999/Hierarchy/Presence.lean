import R9999.Hierarchy.Requests
import R9999.Hierarchy.Sound

/-!
# The presence record

For each of its lines the L2 records whether the L1D may hold it (`pd`), and the colour of
the set it was filled into (`pidx`).  The record is what lets the L2 take a line away from
the L1D without looking into it: it probes the recorded set and no other.

`Present` says that the record is right.  Its main part is the inclusion `incl`: a line
the L1D holds is in the L2, recorded at the colour of its set.  The other parts say what
keeps it true in the middle of a transaction: which request the L2 serves (`link`), that
the line of a request in service has left the L1D or was never in the set it is asked for
(`away`), and that a line that is being evicted has left it too (`gone`).

`present_next` keeps `Present` over every clock edge in which the L2 does not accept an
uncached access to a line that the L1D holds (`Undisturbed`): the uncached arm of the L2
drops its own copy without a probe.
-/

namespace R9999

namespace L2View

open L2

variable {g : Geometry} {v v' : L2View} {i : Input}

/-- The L2 holds the line and records it at the colour `c`. -/
def Recorded (g : Geometry) (v : L2View) (x : LineAddr) (c : Nat) : Prop :=
  (v.arr (g.l2Idx x)).valid = true ∧ (v.arr (g.l2Idx x)).tag = g.l2Tag x ∧
    (v.arr (g.l2Idx x)).pres = ⟨true, c⟩

/-- The resident line. -/
def curAddr (g : Geometry) (v : L2View) : LineAddr := g.l2Line v.cur.tag v.regs.idx

/-- The states in which a request or a snoop is looked up or its line brought in. -/
def looking : State → Bool
  | .waitForRam | .checkValidAndTag | .dirtyStore | .storeTurnaround | .cleanReload
  | .waitCleanReload => true
  | _ => false

/-- The arms of `CHECK_VALID_AND_TAG` that take the resident line away from its requester's
record: all but the fill of the L1I. -/
def takes (r : Regs) (w : L2Entry) : Prop :=
  hit r w = true ∧
    (r.isUncache = true ∨ needsProbe r w = false ∧ (r.opcode = .lw → r.fromD = true))

theorem Recorded.cur_of_idx {x : LineAddr} {c : Nat} (h : Recorded g v x c)
    (hx : g.l2Idx x = v.regs.idx) :
    v.cur.valid = true ∧ v.cur.tag = g.l2Tag x ∧ v.cur.pres = ⟨true, c⟩ := by
  unfold Recorded at h
  rw [hx] at h
  exact h

theorem Recorded.eq_curAddr {x : LineAddr} {c : Nat} (h : Recorded g v x c)
    (hx : g.l2Idx x = v.regs.idx) : x = curAddr g v := by
  rw [curAddr, (h.cur_of_idx hx).2.1, ← hx, g.l2Line_tag_idx]

theorem Recorded.of_setCur {x : LineAddr} {c : Nat} {r : Regs} {e : L2Entry}
    (h : Recorded g v x c) (hx : g.l2Idx x ≠ v.regs.idx) : Recorded g ⟨r, v.setCur e⟩ x c := by
  unfold Recorded
  rw [show (⟨r, v.setCur e⟩ : L2View).arr (g.l2Idx x) = v.arr (g.l2Idx x) from
    Function.update_of_ne hx _ _]
  exact h

/-- A clock edge keeps the record of a line, unless it is the resident one and is taken
away, or the L2 is walking. -/
theorem recorded_step {x : LineAddr} {c : Nat} (h : Step g v i v') (hr : Recorded g v x c) :
    Recorded g v' x c ∨ v.regs.state = .init ∨ walks v.regs.state = true ∨
      x = curAddr g v ∧
        (v.regs.state = .checkValidAndTag ∧ takes v.regs v.cur ∨ v.regs.state = .cleanReload) := by
  have key : ∀ {r : Regs} {e : L2Entry}, (v.regs.state = .checkValidAndTag ∧ takes v.regs v.cur ∨
      v.regs.state = .cleanReload) → Recorded g ⟨r, v.setCur e⟩ x c ∨ v.regs.state = .init ∨
        walks v.regs.state = true ∨ x = curAddr g v ∧
          (v.regs.state = .checkValidAndTag ∧ takes v.regs v.cur ∨
            v.regs.state = .cleanReload) := by
    intro r e ht
    by_cases hx : g.l2Idx x = v.regs.idx
    · exact .inr (.inr (.inr ⟨hr.eq_curAddr hx, ht⟩))
    · exact .inl (hr.of_setCur hx)
  cases h
  case init hs _ | initLast hs _ => exact .inr (.inl hs)
  case flushTriageWb hs _ | flushTriageNext hs _ _ | flushTriageLast hs _ _ =>
    exact .inr (.inr (.inl (by rw [hs]; rfl)))
  case uncachedWriteBack hs hu hh _ | uncachedHit hs hu hh _ =>
    exact key (.inl ⟨hs, hh, .inl hu⟩)
  case dropWriteBack hs hu hp ho hh _ =>
    refine key (.inl ⟨hs, hh, .inr ⟨hp, fun hl => ?_⟩⟩)
    rcases ho with ho | ⟨ho, -⟩ <;> rw [hl] at ho <;> cases ho
  case invlDone hs hu hp ho _ | pgdrop hs hu hp ho | snoopDone hs hu hp ho _
      | wb hs hu hp ho =>
    by_cases hh : hit v.regs v.cur = true
    · rw [if_pos hh]
      refine key (.inl ⟨hs, hh, .inr ⟨hp, fun hl => ?_⟩⟩)
      rw [hl] at ho
      cases ho
    · rw [if_neg hh]
      exact .inl hr
  case hitLw hs hu hp ho hh =>
    cases hf : v.regs.fromD
    · -- the fill of the L1I keeps the record
      refine .inl ?_
      by_cases hx : g.l2Idx x = v.regs.idx
      · have hc := hr.cur_of_idx hx
        unfold Recorded
        simp only [setCur, hx, Function.update_self]
        exact hc
      · exact hr.of_setCur hx
    · exact key (.inl ⟨hs, hh, .inr ⟨hp, fun _ => hf⟩⟩)
  case hitSw hs hu hp ho hh =>
    refine key (.inl ⟨hs, hh, .inr ⟨hp, fun hl => ?_⟩⟩)
    rw [hl] at ho
    cases ho
  case cleanReloadDone hs _ => exact key (.inr hs)
  all_goals exact .inl hr

/-- What the register of the uncached access says of the request in service, if that
request is cacheable or not. -/
def Tagged (r : Regs) (cacheable : Bool) : Prop :=
  match r.state with
  | .waitForRam | .checkValidAndTag | .dirtyStore | .storeTurnaround | .cleanReload
  | .waitCleanReload => r.isUncache = !cacheable
  | .uncacheLoad | .uncacheWbDrain | .uncacheWbTurnaround => r.opcode = .lw → cacheable = false
  | _ => True

theorem tagged_step {b : Bool} (h : Step g v i v') (hs : v.regs.state ≠ .idle)
    (ht : Tagged v.regs b) : Tagged v'.regs b := by
  cases h
  case idle h _ _ _ | idleFlushSkip h _ _ | idleFlush h _ _ | idleSnoop h _ _ | idleReq h _ _ _ _
    | idleUncached h _ _ _ _ => exact absurd h hs
  case memWait hm _ =>
    cases hst : v.regs.state <;> simp_all [Tagged, memWaiting]
  case uncachedWriteBack h hu _ _ =>
    simp only [Tagged, h, hu] at ht ⊢
    intro _
    simpa using ht.symm
  case uncachedHit h hu _ _ | uncachedMiss h hu _ =>
    simp only [Tagged, h, hu] at ht
    have hb : b = false := by simpa using ht.symm
    rcases uncachedState_cases v.regs with hn | hn <;> simp [Tagged, hn, hb]
  case dropWriteBack h hu hp ho _ _ =>
    simp only [Tagged, h] at ht ⊢
    rcases ho with ho | ⟨ho, -⟩ <;> simp [ho]
  case turnaroundIssue h _ _ =>
    simp only [Tagged, h] at ht
    rcases uncachedState_cases v.regs with hn | hn <;> simp_all [Tagged]
  all_goals simp_all [Tagged]

/-- The response to a cacheable fill finds its line recorded for its requester. -/
theorem granted_step (h : Step g v i v') (hc : Ctl g v)
    (ht : v.regs.state ≠ .idle → Tagged v.regs true) (hr : v'.regs.rspValid = true)
    (ho : v'.regs.opcode = .lw) (hf : v'.regs.fromD = true) :
    Recorded g v' v'.regs.saveaddr v'.regs.reqColour := by
  have hm := hc.mode
  cases h
  case hitLw hs hu hp ho' hh =>
    simp only [Mode, hs] at hm
    have hf' : v.regs.fromD = true := hf
    simp only [hit, Bool.and_eq_true, beq_iff_eq] at hh
    obtain ⟨hx, htag⟩ := hm.1
    unfold Recorded
    simp only [tick_saveaddr, tick_reqColour, setCur, ← hx, Function.update_self, hf', if_true]
    exact ⟨hh.1, hh.2.symm.trans htag, trivial⟩
  case uncacheLoadDone hs _ =>
    have h' := ht (by simp [hs])
    simp only [Tagged, hs] at h'
    exact absurd (h' ho) (by simp)
  case uncacheStoreDone hs _ =>
    simp only [Mode, hs] at hm
    have ho' : v.regs.opcode = .lw := ho
    obtain ⟨-, -, -, -, -, hop⟩ := hm
    rcases hop with hop | hop <;> simp [hop] at ho'
  all_goals simp_all

/-- A response in `WAIT_FOR_RAM` is the early one of a writeback. -/
def Early (r : Regs) : Prop :=
  r.rspValid = true → r.state = .waitForRam → r.opcode = .sw ∧ r.isUncache = false

theorem early_step (h : Step g v i v') : Early v'.regs := by
  unfold Early
  cases h
  case uncachedHit | uncachedMiss | turnaroundIssue =>
    rcases uncachedState_cases v.regs with hn | hn <;> simp [hn]
  all_goals simp_all

/-- A request the L2 looks up that is not the L1D's is a fill or a snoop. -/
def FromI (r : Regs) : Prop :=
  looking r.state = true → r.fromD = false → r.opcode = .lw ∨ r.opcode = .snoopInvl

theorem fromI_step (h : Step g v i v') (hq : i.reqValid = true → i.req.fromD = false →
    i.req.opcode = .lw) (hi : FromI v.regs) : FromI v'.regs := by
  unfold FromI at hi ⊢
  cases h
  case idleReq hs _ _ hv _ | idleUncached hs _ _ hv _ => exact fun _ hf => .inl (hq hv hf)
  case memWait hm _ =>
    intro hl
    exact hi hl
  case uncachedHit | uncachedMiss | turnaroundIssue =>
    intro hl
    rcases uncachedState_cases v.regs with hn | hn <;> simp [hn, looking] at hl
  all_goals simp_all [looking]

/-- The resident line is being replaced, or has been probed. -/
def Evicting (r : Regs) : Prop :=
  r.state = .dirtyStore ∨ r.state = .storeTurnaround ∨ r.state = .cleanReload ∨
    r.state = .waitCleanReload ∨
      r.probed = true ∧ (r.state = .waitForRam ∨ r.state = .checkValidAndTag)

/-- How the resident line comes to be one that is evicted: it was one already, its probe is
acknowledged, no probe is needed, or it has just come from memory. -/
theorem evicting_step (h : Step g v i v') (he : Evicting v'.regs) :
    v.regs.state ≠ .idle ∧
      (v'.cur = v.cur ∧ v'.regs.idx = v.regs.idx ∧
          (Evicting v.regs ∨ v.regs.state = .checkValidAndTag ∧
            (v.regs.probeReq = true ∧ i.probeAck = true ∧ needsProbe v.regs v.cur = true ∨
              needsProbe v.regs v.cur = false ∧ v.regs.isUncache = false ∧
                fillOp v.regs.opcode = true ∧ hit v.regs v.cur = false)) ∨
        v'.cur.pres = Pres.zero) := by
  unfold Evicting at he ⊢
  cases h
  case probeAcked hs hp hr ha => exact ⟨by simp [hs], .inl ⟨rfl, rfl, .inr ⟨hs, .inl ⟨hr, ha, hp⟩⟩⟩⟩
  case evict hs hu hp ho hh _ | reload hs hu hp ho hh _ =>
    exact ⟨by simp [hs], .inl ⟨rfl, rfl, .inr ⟨hs, .inr ⟨hp, hu, ho, hh⟩⟩⟩⟩
  case cleanReloadDone hs _ => exact ⟨by simp [hs], .inr (by simp [cur, setCur])⟩
  case memWait hs _ =>
    have hi : v.regs.state ≠ .idle := by
      intro hi
      simp [hi, memWaiting] at hs
    exact ⟨hi, .inl ⟨rfl, rfl, .inl he⟩⟩
  case uncachedHit | uncachedMiss | turnaroundIssue =>
    rcases uncachedState_cases v.regs with hn | hn <;> simp [hn] at he
  case waitForRam hs | probeWait hs _ _ | hitOther hs _ _ _ _ _ _ | dirtyStoreDone hs _
      | storeTurnaround hs | waitCleanReload hs =>
    refine ⟨by simp [hs], .inl ⟨rfl, rfl, .inl ?_⟩⟩
    simp_all
  all_goals simp_all

/-- A line the L2 looks up outside `IDLE` was looked up before. -/
theorem looking_step (h : Step g v i v') (hs : v.regs.state ≠ .idle)
    (hl : looking v'.regs.state = true) :
    looking v.regs.state = true ∧ v'.regs.isUncache = v.regs.isUncache := by
  cases h
  case memWait => exact ⟨hl, rfl⟩
  case uncachedHit | uncachedMiss | turnaroundIssue =>
    rcases uncachedState_cases v.regs with hn | hn <;> simp [hn, looking] at hl
  all_goals simp_all [looking]

/-- A request that is looked up from `IDLE` has just been accepted, or is a snoop. -/
theorem looking_of_idle (h : Step g v i v') (hs : v.regs.state = .idle)
    (hl : looking v'.regs.state = true) (hf : v'.regs.fromD = true) : accepts v.regs i = true := by
  cases h
  case memWait hm _ => simp [hs, memWaiting] at hm
  all_goals simp_all [looking, accepts]

/-- An uncached access that is looked up from `IDLE` has just been accepted. -/
theorem uncached_of_idle (h : Step g v i v') (hs : v.regs.state = .idle)
    (hu : v.regs.isUncache = false) (hn : v'.regs.isUncache = true) : accepts v.regs i = true := by
  cases h
  case memWait hm _ => simp [hs, memWaiting] at hm
  all_goals simp_all [accepts]

end L2View

namespace L1d

variable {g : Geometry} {s : L1d} {i : Input} {p : Proto} {a : Nat → L1dEntry} {x : LineAddr}
  {j : Nat}

instance (g : Geometry) (a : Nat → L1dEntry) (x : LineAddr) (j : Nat) : Decidable (Holds g a x j) :=
  inferInstanceAs (Decidable (_ ∧ _ ∧ _ ∧ _))

/-- The requested line arrives in this cycle. -/
def fills (s : L1d) (i : Input) : Prop :=
  s.regs.state = .injectReload ∧ i.memRspValid = true ∧ s.regs.memReq.opcode = .lw

/-- The L1D gains a line only by a fill. -/
theorem holds_step (h : Act g s i p a) (hq : Sent g s.regs.proto s.arr) (hh : Holds g a x j) :
    Holds g s.arr x j ∨ fills s i ∧ x = s.regs.memReq.addr ∧ j = s.regs.memReq.idx := by
  have hdrop : ∀ {k : Nat} {e : L1dEntry}, e.valid = false →
      a = Function.update s.arr k e → Holds g s.arr x j := by
    intro k e he ha
    rw [ha] at hh
    exact ((holds_dropEntry he).mp hh).2
  cases h with
  | keep ha | request _ ha | victim _ ha => exact .inl (ha ▸ hh)
  | store _ _ _ hc _ ha =>
    refine .inl ?_
    by_cases hj : j = s.regs.cacheIdx
    · subst hj
      simp only [Holds, ha, Function.update_self] at hh
      exact hh
    · simpa only [Holds, ha, Function.update_of_ne hj] using hh
  | drop k e he _ _ ha => exact .inl (hdrop he ha)
  | evict _ e he _ ha => exact .inl (hdrop he ha)
  | taken _ _ _ _ e he _ ha => exact .inl (hdrop he ha)
  | probe _ _ ha =>
    refine .inl ?_
    split at ha
    · exact hdrop rfl ha
    · exact ha ▸ hh
  | discard _ _ _ ha => exact .inl ((ha x j).mp hh).1
  | fill hs hm ho _ ha =>
    by_cases hj : j = s.regs.memReq.idx
    · refine .inr ⟨⟨hs, hm, ho⟩, ?_, hj⟩
      have hb := Proto.behind_eq (p := s.regs.proto) hs (by decide)
      simp only [Sent, hb] at hq
      subst hj
      rw [← hh.line, ha, Function.update_self]
      exact (g.l1Line_l1Tag hq.1.2.1)
    · refine .inl ?_
      simpa only [Holds, ha, Function.update_of_ne hj] using hh

/-- The line of an outstanding request is not in the set it is asked for, unless it is the
victim of a miss. -/
theorem sent_away (hq : Sent g s.regs.proto s.arr) (ho : s.regs.proto.out = true)
    (hop : s.regs.memReq.cacheable = true → s.regs.memReq.opcode ≠ .sw) :
    ¬ Holds g s.arr s.regs.memReq.addr s.regs.memReq.idx := by
  unfold Sent at hq
  unfold Proto.out at ho
  have hinv : (s.arr s.regs.memReq.idx).valid = false →
      ¬ Holds g s.arr s.regs.memReq.addr s.regs.memReq.idx := by
    intro hv hh
    exact absurd hh.1 (by simp [hv])
  cases hb : s.regs.proto.behind <;> simp only [hb] at hq ho
  case injectReload =>
    rcases hq.2 with h | h
    · exact h.2.2.1
    · exact absurd h.1 (hop hq.1.1)
  case injectUncacheStore => exact hq.2.2.2.1
  case injectUncacheLoad => exact hq.2.2.2.1
  case uncacheWb =>
    have hd : s.regs.proto.uncacheWbDirty = true := by simpa [waiting] using ho
    exact absurd (hq hd).1 (hop (hq hd).2.1.1)
  case flushCacheWait | flushCacheLastWait => exact absurd hq.1 (hop hq.2.1.1)
  case flushClWait | flushPgWait =>
    rcases hq with h | h
    · exact hinv h.2.2
    · exact h.2.2
  all_goals simp [waiting] at ho

/-- The set of an outstanding request can hold its line. -/
theorem sent_placed (hq : Sent g s.regs.proto s.arr) (ho : s.regs.proto.out = true) :
    Placed g s.regs.memReq.addr s.regs.memReq.idx := by
  unfold Sent at hq
  unfold Proto.out at ho
  cases hb : s.regs.proto.behind <;> simp only [hb] at hq ho
  case injectReload => exact hq.1.2
  case injectUncacheStore | injectUncacheLoad => exact hq.2.2.1
  case uncacheWb =>
    have hd : s.regs.proto.uncacheWbDirty = true := by simpa [waiting] using ho
    exact (hq hd).2.1.2
  case flushCacheWait | flushCacheLastWait => exact hq.2.1.2
  case flushClWait | flushPgWait =>
    rcases hq with h | h
    · exact h.2.1.2
    · exact h.2.1.2
  all_goals simp [waiting] at ho

/-- With the reply to a whole-line writeback its set is empty. -/
theorem written_step (h : Step g s i p a) (hq : Sent g s.regs.proto s.arr)
    (he : Expects s.regs) (hm : i.memRspValid = true) (ho : s.regs.memReq.opcode = .sw)
    (hc : s.regs.memReq.cacheable = true) : (a s.regs.memReq.idx).valid = false := by
  have hb : ∀ {t}, s.regs.state = t → t ≠ .probeChk → s.regs.proto.behind = t :=
    fun hs ht => Proto.behind_eq (p := s.regs.proto) hs ht
  unfold Sent at hq
  unfold Expects at he
  cases h
  case reload hs _ _ _ _ =>
    simp only [hb hs (by decide)] at hq
    rcases hq.2 with hq | hq
    · exact absurd (hq.1.symm.trans ho) (by decide)
    · have hi : s.regs.inhibitWrite = true := hq.2.1
      rw [Function.update_self, hi]
      rfl
  case uncacheDone hs _ =>
    rcases hs with hs | hs
    · simp only [hb hs (by decide)] at hq
      exact absurd (hc.symm.trans hq.1) (by decide)
    · simp only [hb hs (by decide)] at hq
      exact absurd (hc.symm.trans hq.1) (by decide)
  case uncacheWbDone hs _ =>
    simp only [hb hs (by decide)] at hq
    have hd : s.regs.uncacheWbDirty = true := by
      rcases he with he | he
      · simp [hs, waiting] at he
      · exact he.2
    exact (hq hd).2.2
  case flushClDone hs _ _ _ _ _ _ _ | flushPgNext hs _ _ | flushPgLast hs _ _ =>
    simp only [hb hs (by decide)] at hq
    have ho' : s.regs.proto.memReq.opcode = .sw := ho
    rcases hq with hq | hq
    · exact absurd (hq.1.symm.trans ho') (by decide)
    · rcases hq.1 with hq | hq
      · exact absurd (hq.symm.trans ho') (by decide)
      · exact absurd (hq.symm.trans ho') (by decide)
  case flushNext hs _ | flushLast hs _ =>
    simp only [hb hs (by decide)] at hq
    exact hq.2.2
  case takeProbe _ _ _ hr _ | wait _ hr _ _ _ => exact absurd hm (by simp [hr])
  all_goals simp_all [waiting]

/-- After a probe the probed set does not hold the probed line. -/
theorem probed_step (h : Step g s i p a) (hs : s.regs.state = .probeChk)
    (ht : s.regs.prbTag = g.l1Tag x) : ¬ Holds g a x s.regs.cacheIdx := by
  cases h with
  | probeChk _ hit _ hh =>
    intro hx
    cases hit with
    | true => exact absurd hx.1 (by simp [dropCur_self])
    | false =>
      have hx' : Holds g s.arr x s.regs.cacheIdx := hx
      have hv : s.cur.valid = true := hx'.1
      have htag : s.cur.tag = s.regs.prbTag := hx'.2.1.trans ht.symm
      simp [hv, htag] at hh
  | wait hw => simp [hs, waiting] at hw
  | takeProbe _ _ _ _ ho => simp [prbOkState, hs] at ho
  | uncacheDone hw => simp [hs] at hw
  | _ hs' => simp [hs] at hs'

end L1d

namespace Hier

open L2View (owes accepts looking takes Recorded curAddr Tagged Early FromI Evicting)

variable {g : Geometry} {s : Hier} {i : Stim}

/-- The L1D does not hold the line. -/
def Absent (g : Geometry) (s : Hier) (x : LineAddr) : Prop :=
  ∀ j, ¬ L1d.Holds g s.l1d.arr x j

instance (g : Geometry) (s : Hier) (x : LineAddr) : Decidable (Absent g s x) :=
  decidable_of_iff (∀ j < g.l1Sets, ¬ L1d.Holds g s.l1d.arr x j)
    ⟨fun h j hj => h j hj.2.2.2 hj, fun h j _ => h j⟩

/-- The L2 serves the request in the L1D's registers. -/
structure Linked (g : Geometry) (s : Hier) : Prop where
  opcode : s.l2.regs.opcode = s.l1d.regs.memReq.opcode
  addr : s.l2.regs.saveaddr = s.l1d.regs.memReq.addr
  colour : s.l2.regs.reqColour = g.colour s.l1d.regs.memReq.idx
  tagged : s.l2.regs.state ≠ .idle → Tagged s.l2.regs s.l1d.regs.memReq.cacheable

/-- The line of a request of the L1D in service is not in the set the request is for, and
nowhere in the L1D if the request writes it back. -/
structure Away (g : Geometry) (s : Hier) : Prop where
  set : ¬ L1d.Holds g s.l1d.arr s.l2.regs.saveaddr
    (g.l1Set s.l2.regs.saveaddr s.l2.regs.reqColour)
  line : s.l2.regs.isUncache = false → s.l2.regs.opcode = .sw ∨ s.l2.regs.opcode = .wb →
    Absent g s s.l2.regs.saveaddr

/-- The presence record is right. -/
structure Present (g : Geometry) (s : Hier) : Prop where
  /-- Inclusion: the L2 has what the L1D has, and knows where. -/
  incl : ∀ x j, L1d.Holds g s.l1d.arr x j → Recorded g s.l2.view x (g.colour j)
  link : s.served = true → s.l2.regs.fromD = true → Linked g s
  early : Early s.l2.regs
  fromI : FromI s.l2.regs
  /-- The line of a fill that is being answered is recorded. -/
  granted : s.l1dRsp = true → s.l1d.regs.memReq.opcode = .lw →
    s.l1d.regs.memReq.cacheable = true →
    Recorded g s.l2.view s.l1d.regs.memReq.addr (g.colour s.l1d.regs.memReq.idx)
  /-- A line that is being written back is in no other set. -/
  lone : s.l1dOut = true → s.l1d.regs.memReq.cacheable = true →
    s.l1d.regs.memReq.opcode = .sw ∨ s.l1d.regs.memReq.opcode = .wb →
    ∀ k, L1d.Holds g s.l1d.arr s.l1d.regs.memReq.addr k → k = s.l1d.regs.memReq.idx
  away : looking s.l2.regs.state = true → s.l2.regs.fromD = true →
    s.l2.regs.rspValid = false → Away g s
  gone : Evicting s.l2.regs → s.l2.view.cur.valid = true → Absent g s (curAddr g s.l2.view)
  uncached : looking s.l2.regs.state = true → s.l2.regs.isUncache = true →
    Absent g s s.l2.regs.saveaddr
  /-- A probe that is acknowledged has emptied its set of its line. -/
  answered : s.l1d.regs.prbAck = true →
    ¬ L1d.Holds g s.l1d.arr s.l2.regs.probeAddr
      (g.l1Set s.l2.regs.probeAddr s.l2.regs.probeColour)

/-- The L2 accepts no uncached access to a line that the L1D holds, and is not disabled. -/
def Undisturbed (g : Geometry) (s : Hier) (i : Stim) : Prop :=
  s.nocache = false ∧
    (accepts s.l2.regs (s.l2Pins g i) = true → (s.l2Req g).cacheable = false →
      Absent g s (s.l2Req g).addr)

instance (g : Geometry) (s : Hier) (i : Stim) : Decidable (Undisturbed g s i) :=
  inferInstanceAs (Decidable (_ ∧ (_ → _ → _)))

/-! ## What the invariant says of a state -/

/-- With the L2 enabled, a request is cacheable if it says so. -/
theorem l2Cacheable_eq (hnc : s.nocache = false) :
    L2.l2Cacheable (s.l2Pins g i) = (s.l2Req g).cacheable := by
  simp only [L2.l2Cacheable]
  rw [show (s.l2Pins g i).nocache = false from hnc]
  simp [l2Pins]

namespace Sound

variable (hs : Sound g s)

include hs

/-- A response is not given while the L2 looks at a line. -/
theorem no_rsp (hc : s.l2.regs.state = .checkValidAndTag) : s.l2.regs.rspValid = false := by
  cases hr : s.l2.regs.rspValid
  · rfl
  · rcases hs.wf.pulses.rsp hr with h' | h'
    · exact absurd (hc.symm.trans h') (by decide)
    · exact absurd (hc.symm.trans h') (by decide)

/-- The L1D has nothing while the L2 starts up or walks. -/
theorem absent_of_walk (hw : s.l2.regs.state = .init ∨ L2View.walks s.l2.regs.state = true) (x) :
    Absent g s x := by
  intro j hj
  have hr := hs.phase.rests (.inr hw.symm)
  exact absurd hj.1 (by simp [hr.empty j])

/-- The request registers of the L1D are held until the reply. -/
theorem memReq_held (ho : s.l1dOut = true) :
    (s.next g i).l1d.regs.memReq = s.l1d.regs.memReq := L1d.memReq_step hs.l1dStep ho

/-- The L1D waits for the request the L2 serves for it. -/
theorem out_of_served (hsv : s.served = true) (hf : s.l2.regs.fromD = true) :
    s.l1dOut = true := by
  have hg := hs.wf.bus.fromD hsv
  rw [hf, Eq.comm, beq_iff_eq] at hg
  rw [hs.wf.bus.outD, hg]
  simp

/-- A request of the L1D that the L2 accepts is the one in its registers. -/
theorem req_of_accepts (ha : accepts s.l2.regs (s.l2Pins g i) = true)
    (hf : (s.l2Req g).fromD = true) : s.l1dOut = true ∧
      s.l2Req g = { addr := s.l1d.regs.memReq.addr, cacheable := s.l1d.regs.memReq.cacheable
                    mask := s.l1d.regs.memReq.mask, storeData := s.l1d.regs.memReq.storeData
                    opcode := s.l1d.regs.memReq.opcode, fromD := true
                    colour := g.colour s.l1d.regs.memReq.idx } := by
  have hn : s.arb.state ≠ .gntL1i := by
    intro hn
    rw [l2Req_fromD, hn] at hf
    cases hf
  refine ⟨?_, by rw [l2Req, if_neg hn]⟩
  rw [hs.wf.bus.outD]
  rcases hs.wf.arb_of_accepts ha with ⟨-, hst⟩ | ⟨hst, hg⟩
  · cases hst' : s.arb.state with
    | idle => exact absurd hst' hst
    | gntL1d => simp
    | gntL1i => exact absurd hst' hn
  · have hd := grant_gntL1d hg
    rw [Bool.or_eq_true] at hd
    rcases hd with hd | hd <;> simp [hd]

/-- No line arrives in the cycle in which a request is accepted. -/
theorem not_fills_of_accepts (hacc : accepts s.l2.regs (s.l2Pins g i) = true) :
    ¬ L1d.fills s.l1d (s.l1dPins i) := by
  rintro ⟨-, hrsp, -⟩
  have hrsp' : s.l1dRsp = true := hrsp
  have hsv := hs.wf.served_of_accepts hacc
  rw [hs.wf.route.1] at hrsp'
  simp only [served, Bool.or_eq_false_iff] at hsv
  simp [hsv.2] at hrsp'

theorem answered_next (ha : (s.next g i).l1d.regs.prbAck = true) :
    ¬ L1d.Holds g (s.next g i).l1d.arr (s.next g i).l2.regs.probeAddr
      (g.l1Set (s.next g i).l2.regs.probeAddr (s.next g i).l2.regs.probeColour) := by
  by_cases hc : s.l1d.regs.state = .probeChk
  · obtain ⟨hr, hseen, ht, hx⟩ := hs.wf.probing.chk hc
    have hna : s.l1d.regs.prbAck = false := by
      cases hk : s.l1d.regs.prbAck
      · rfl
      · exact absurd hc (hs.wf.probing.ack hk).2.2
    obtain ⟨-, hpa, hpc⟩ := hs.wf.probe_held hr hna (i := i)
    rw [hpa, hpc, ← hx]
    exact L1d.probed_step hs.l1dStep hc ht
  · have hn : (s.next g i).l1d.regs.prbAck = false := (L1d.takeProbe_step hs.l1dStep hc).1
    exact absurd (ha.symm.trans hn) (by decide)

end Sound

namespace Present

/-- A line is in at most one set of the L1D. -/
theorem unique (h : Present g s) {x : LineAddr} {j k : Nat} (hj : L1d.Holds g s.l1d.arr x j)
    (hk : L1d.Holds g s.l1d.arr x k) : j = k := by
  have hc : (⟨true, g.colour j⟩ : Pres) = ⟨true, g.colour k⟩ :=
    (h.incl x j hj).2.2.symm.trans (h.incl x k hk).2.2
  exact hj.2.2.eq hk.2.2 (by simpa using hc)

variable (hs : Sound g s) (h : Present g s)

include hs h

/-- No line arrives in the L1D while the L2 works. -/
theorem not_fills (hi : s.l2.regs.state ≠ .idle) : ¬ L1d.fills s.l1d (s.l1dPins i) := by
  rintro ⟨-, hr, ho⟩
  have hr' : s.l1dRsp = true := hr
  have hroute := hs.wf.route.1
  rw [hr', Eq.comm, Bool.and_eq_true] at hroute
  have hw : s.l2.regs.state = .waitForRam := by
    rcases hs.wf.pulses.rsp hroute.1 with h' | h'
    · exact absurd h' hi
    · exact h'
  have hsv : s.served = true := by simp [served, hroute.1]
  have h1 := (h.early hroute.1 hw).1
  rw [(h.link hsv hroute.2).opcode, ho] at h1
  cases h1

/-- While the L2 works, the L1D gains nothing. -/
theorem shrink (hi : s.l2.regs.state ≠ .idle) {x : LineAddr} {j : Nat}
    (hh : L1d.Holds g (s.next g i).l1d.arr x j) : L1d.Holds g s.l1d.arr x j := by
  rcases L1d.holds_step hs.act hs.sent hh with hh | ⟨hf, -⟩
  · exact hh
  · exact absurd hf (not_fills hs h hi)

theorem absent_next (hi : s.l2.regs.state ≠ .idle) {x : LineAddr} (hx : Absent g s x) :
    Absent g (s.next g i) x := fun j hh => hx j (shrink hs h hi hh)

/-- A valid resident line that is not recorded is not in the L1D. -/
theorem absent_of_pres (hv : s.l2.view.cur.pres.pd = false) :
    Absent g s (curAddr g s.l2.view) := by
  intro j hh
  have hr := h.incl _ j hh
  have hx : g.l2Idx (curAddr g s.l2.view) = s.l2.view.regs.idx :=
    g.l2Idx_l2Line _ hs.wf.ctl.idx_lt
  have hp := (hr.cur_of_idx hx).2.2
  rw [hp] at hv
  cases hv

/-- A line that is taken from its requester's record is not in the L1D. -/
theorem absent_of_takes (hc : s.l2.regs.state = .checkValidAndTag)
    (ht : takes s.l2.regs s.l2.view.cur) : Absent g s s.l2.regs.saveaddr := by
  obtain ⟨hh, hb⟩ := ht
  have hm := hs.wf.ctl.mode
  rw [L2View.Mode, show s.l2.view.regs.state = .checkValidAndTag from hc] at hm
  have hcur : curAddr g s.l2.view = s.l2.regs.saveaddr := L2View.l2Line_of_hit hm.1 hh
  cases hun : s.l2.regs.isUncache with
  | true => exact h.uncached (by rw [hc]; rfl) hun
  | false =>
    obtain ⟨hp, hl⟩ : L2View.needsProbe s.l2.regs s.l2.view.cur = false ∧
        (s.l2.regs.opcode = .lw → s.l2.regs.fromD = true) := by
      rcases hb with hb | hb
      · exact absurd hb (by simp [hun])
      · exact hb
    intro j hj
    have hr := h.incl _ j hj
    have hpres : s.l2.view.cur.pres = ⟨true, g.colour j⟩ := (hr.cur_of_idx hm.1.1.symm).2.2
    have hv : s.l2.view.cur.valid = true := ((Bool.and_eq_true _ _).mp hh).1
    -- the record has not been acted on yet
    have hnp : s.l2.regs.probed = false := by
      cases hnp : s.l2.regs.probed
      · rfl
      · have hg := h.gone (.inr (.inr (.inr (.inr ⟨hnp, .inr hc⟩)))) hv
        rw [hcur] at hg
        exact absurd hj (hg j)
    have hpd : s.l2.view.cur.pres.pd = true := by rw [hpres]
    have hns : s.l2.regs.opcode ≠ .snoopInvl := by
      intro ho
      simp [L2View.needsProbe, hnp, hun, ho, hh, hpd] at hp
    have hfd : s.l2.regs.fromD = true := by
      cases hf : s.l2.regs.fromD
      · rcases h.fromI (by rw [hc]; rfl) hf with ho | ho
        · exact absurd (hl ho) (by simp [hf])
        · exact absurd ho hns
      · rfl
    have haway := h.away (by rw [hc]; rfl) hfd (hs.no_rsp hc)
    have hop := hm.2.1
    rw [L2View.OpOk, show s.l2.view.regs.isUncache = false from hun] at hop
    have halias : s.l2.regs.opcode = .lw ∨ s.l2.regs.opcode = .invl ∨
        s.l2.regs.opcode = .pgdrop → False := by
      intro ho
      have hcol : g.colour j = s.l2.regs.reqColour := by
        have hpi : s.l2.view.cur.pres.pidx = g.colour j := by rw [hpres]
        rcases ho with ho | ho | ho <;>
          simpa [L2View.needsProbe, L2.isAlias, hnp, hun, ho, hh, hpd, hfd, hpi] using hp
      refine haway.set ?_
      rw [← hcol, hj.2.2.set]
      exact hj
    rcases hop with ho | ho | ho | ho | ho | ho
    · exact halias (.inl ho)
    · exact haway.line hun (.inl ho) j hj
    · exact haway.line hun (.inr ho) j hj
    · exact halias (.inr (.inl ho))
    · exact halias (.inr (.inr ho))
    · exact hns ho

/-! ## One clock edge -/

theorem incl_next (x : LineAddr) (j : Nat)
    (hj : L1d.Holds g (s.next g i).l1d.arr x j) :
    Recorded g (s.next g i).l2.view x (g.colour j) := by
  rcases L1d.holds_step hs.act hs.sent hj with hj | ⟨hf, rfl, rfl⟩
  · have hr := h.incl x j hj
    rcases L2View.recorded_step hs.l2Step hr with hr' | hw | hw | ⟨hx, ⟨hc, ht⟩ | hc⟩
    · exact hr'
    · exact absurd hj (hs.absent_of_walk (.inl hw) x j)
    · exact absurd hj (hs.absent_of_walk (.inr hw) x j)
    · have hm := hs.wf.ctl.mode
      rw [L2View.Mode, hc] at hm
      have hcur : curAddr g s.l2.view = s.l2.regs.saveaddr := L2View.l2Line_of_hit hm.1 ht.1
      have ha := absent_of_takes hs h hc ht
      rw [← hcur, ← hx] at ha
      exact absurd hj (ha j)
    · have hxi : g.l2Idx x = s.l2.view.regs.idx := by
        rw [hx]
        exact g.l2Idx_l2Line _ hs.wf.ctl.idx_lt
      have hg := h.gone (.inr (.inr (.inl hc))) (hr.cur_of_idx hxi).1
      rw [← hx] at hg
      exact absurd hj (hg j)
  · have hi : s.l2.regs.state = .idle := by
      by_contra hi
      exact not_fills hs h hi hf
    have hcach : s.l1d.regs.memReq.cacheable = true := by
      have hq := hs.sent
      have hb := L1d.Proto.behind_eq (p := s.l1d.regs.proto) hf.1 (by decide)
      simp only [L1d.Sent, hb] at hq
      exact hq.1.1
    have hr := h.granted hf.2.1 hf.2.2 hcach
    have hi' : s.l2.view.regs.state = .idle := hi
    rcases L2View.recorded_step hs.l2Step hr with hr' | hw | hw | ⟨-, ⟨hc, -⟩ | hc⟩
    · exact hr'
    · exact absurd (hi'.symm.trans hw) (by decide)
    · rw [hi'] at hw
      cases hw
    · exact absurd (hi'.symm.trans hc) (by decide)
    · exact absurd (hi'.symm.trans hc) (by decide)

theorem link_next (hnc : s.nocache = false) (hsv : (s.next g i).served = true)
    (hf : (s.next g i).l2.regs.fromD = true) : Linked g (s.next g i) := by
  have hstep := hs.l2Step (i := i)
  rw [hs.wf.served_next, Bool.or_eq_true, Bool.and_eq_true, Bool.not_eq_true'] at hsv
  rcases hsv with ⟨hsv, hr⟩ | hacc
  · -- the request was already in service
    have ho : owes s.l2.regs = true := by simpa [served, hr] using hsv
    have hi : s.l2.view.regs.state ≠ .idle := by
      intro hi
      have hi' : s.l2.regs.state = .idle := hi
      simp [owes, hi'] at ho
    have hsame := L2View.sameReq_step hstep hi
    have hf' : s.l2.regs.fromD = true := hsame.fromD.symm.trans hf
    have hl := h.link hsv hf'
    have hq := hs.memReq_held (i := i) (hs.out_of_served hsv hf')
    refine ⟨?_, ?_, ?_, fun _ => ?_⟩
    · rw [hq]
      exact hsame.opcode.trans hl.opcode
    · rw [hq]
      exact hsame.saveaddr.trans hl.addr
    · rw [hq]
      exact hsame.reqColour.trans hl.colour
    · rw [hq]
      exact L2View.tagged_step hstep hi (hl.tagged hi)
  · have hnew := L2View.accepted_step hstep hacc
    have hfd : (s.l2Req g).fromD = true := hnew.fromD.symm.trans hf
    obtain ⟨hout, hreq⟩ := hs.req_of_accepts hacc hfd
    have hq := hs.memReq_held (i := i) hout
    have hreq' : (s.l2Pins g i).req = s.l2Req g := rfl
    refine ⟨?_, ?_, ?_, fun _ => ?_⟩
    · rw [hq]
      exact hnew.opcode.trans (by rw [hreq', hreq])
    · rw [hq]
      exact hnew.saveaddr.trans (by rw [hreq', hreq])
    · rw [hq]
      exact hnew.reqColour.trans (by rw [hreq', hreq])
    · have hst : (s.next g i).l2.regs.state = .waitForRam := hnew.state
      have hc : L2.l2Cacheable (s.l2Pins g i) = s.l1d.regs.memReq.cacheable := by
        rw [l2Cacheable_eq hnc, hreq]
      rw [Tagged, hst, hq]
      exact hnew.isUncache.trans (by rw [hc])

theorem fromI_next : FromI (s.next g i).l2.regs := by
  refine L2View.fromI_step (hs.l2Step (i := i)) (fun _ hf => ?_) h.fromI
  have hf' : (s.l2Req g).fromD = false := hf
  change (s.l2Req g).opcode = .lw
  rw [l2Req_fromD] at hf'
  have hst : s.arb.state = .gntL1i := by simpa using hf'
  rw [l2Req, if_pos hst]

theorem granted_next (hnc : s.nocache = false) (hr : (s.next g i).l1dRsp = true)
    (ho : (s.next g i).l1d.regs.memReq.opcode = .lw)
    (hc : (s.next g i).l1d.regs.memReq.cacheable = true) :
    Recorded g (s.next g i).l2.view (s.next g i).l1d.regs.memReq.addr
      (g.colour (s.next g i).l1d.regs.memReq.idx) := by
  have hr' : (s.next g i).l2.regs.rspValid = true ∧ (s.next g i).l2.regs.fromD = true := by
    rw [(wf_next hs.wf).route.1] at hr
    simpa using hr
  have hsv : (s.next g i).served = true := by simp [served, hr'.1]
  have hl := link_next hs h hnc hsv hr'.2
  rw [← hl.addr, ← hl.colour]
  refine L2View.granted_step (hs.l2Step (i := i)) hs.wf.ctl (fun hi => ?_) hr'.1
    (hl.opcode.trans ho) hr'.2
  -- the response answers the request that was in service
  have hi' : s.l2.regs.state ≠ .idle := hi
  have hna : accepts s.l2.regs (s.l2Pins g i) = false := by simp [accepts, hi']
  have hsv' := hs.wf.served_next (i := i)
  rw [hsv, hna, Bool.or_false, Eq.comm, Bool.and_eq_true] at hsv'
  have hf' : s.l2.regs.fromD = true :=
    (L2View.sameReq_step (hs.l2Step (i := i)) hi).fromD.symm.trans hr'.2
  have ht := (h.link hsv'.1 hf').tagged hi'
  rw [← hs.memReq_held (i := i) (hs.out_of_served hsv'.1 hf'), hc] at ht
  exact ht

theorem lone_next (ho : (s.next g i).l1dOut = true)
    (hc : (s.next g i).l1d.regs.memReq.cacheable = true)
    (hop : (s.next g i).l1d.regs.memReq.opcode = .sw ∨
      (s.next g i).l1d.regs.memReq.opcode = .wb) (k : Nat)
    (hk : L1d.Holds g (s.next g i).l1d.arr (s.next g i).l1d.regs.memReq.addr k) :
    k = (s.next g i).l1d.regs.memReq.idx := by
  obtain ⟨hout, hnew⟩ := L1d.out_step (hs.l1dStep (i := i)) hs.wf.pipe hs.wf.expects
  have ho' : (s.next g i).l1d.regs.proto.out = true := ho
  rw [hout, Bool.or_eq_true, Bool.and_eq_true] at ho'
  rcases ho' with ⟨ho', -⟩ | hv
  · have hq := hs.memReq_held (i := i) ho'
    rw [hq] at hc hop hk ⊢
    rcases L1d.holds_step hs.act hs.sent hk with hk | ⟨hf, -⟩
    · exact h.lone ho' hc hop k hk
    · rcases hop with hop | hop <;> exact absurd (hf.2.2.symm.trans hop) (by decide)
  · -- a writeback that is being sent: its line was in the set it comes from
    have hnf : ¬ L1d.fills s.l1d (s.l1dPins i) := by
      intro hf
      have h0 := hnew hv
      rw [L1d.Proto.out_waiting (p := s.l1d.regs.proto) hf.1 rfl] at h0
      cases h0
    have hk' : L1d.Holds g s.l1d.arr (s.next g i).l1d.regs.memReq.addr k := by
      rcases L1d.holds_step hs.act hs.sent hk with hk | ⟨hf, -⟩
      · exact hk
      · exact absurd hf hnf
    have hheld : L1d.Holds g s.l1d.arr (s.next g i).l1d.regs.memReq.addr
        (s.next g i).l1d.regs.memReq.idx := by
      have hact := hs.act (i := i)
      cases hact with
      | victim _ _ hh | evict _ _ _ _ _ hh => exact hh
      | request _ _ hro =>
        rcases hro with hro | hro
        · rcases hop with hop | hop <;> exact absurd (hro.symm.trans hop) (by decide)
        · exact absurd (hc.symm.trans hro) (by decide)
      | discard _ hro =>
        rcases hro with hro | hro <;> rcases hop with hop | hop <;>
          exact absurd (hro.symm.trans hop) (by decide)
      | keep _ hv' | store _ _ _ _ hv' | drop _ _ _ _ _ _ hv' | probe _ hv' | fill _ _ _ hv'
      | taken _ _ _ hv' => exact absurd (hv.symm.trans hv') (by decide)
    exact h.unique hk' hheld

theorem uncached_next (hu : Undisturbed g s i) (hl : looking (s.next g i).l2.regs.state = true)
    (hun : (s.next g i).l2.regs.isUncache = true) :
    Absent g (s.next g i) (s.next g i).l2.regs.saveaddr := by
  have hstep := hs.l2Step (i := i)
  by_cases hi : s.l2.view.regs.state = .idle
  · have hm := hs.wf.ctl.mode
    rw [L2View.Mode, hi] at hm
    have hacc := L2View.uncached_of_idle hstep hi hm hun
    have hnew := L2View.accepted_step hstep hacc
    have hc : (s.l2Req g).cacheable = false := by
      have h1 := hnew.isUncache.symm.trans hun
      rw [l2Cacheable_eq hu.1] at h1
      simpa using h1
    have haddr : (s.next g i).l2.regs.saveaddr = (s.l2Req g).addr := hnew.saveaddr
    rw [haddr]
    intro j hj
    rcases L1d.holds_step hs.act hs.sent hj with hj | ⟨hf, -⟩
    · exact hu.2 hacc hc j hj
    · exact hs.not_fills_of_accepts hacc hf
  · obtain ⟨hlk, hun'⟩ := L2View.looking_step hstep hi hl
    have haddr : (s.next g i).l2.regs.saveaddr = s.l2.regs.saveaddr :=
      (L2View.sameReq_step hstep hi).saveaddr
    rw [haddr]
    exact absent_next hs h hi (h.uncached hlk (hun'.symm.trans hun))

theorem away_next (hnc : s.nocache = false) (hl : looking (s.next g i).l2.regs.state = true)
    (hf : (s.next g i).l2.regs.fromD = true) (hr : (s.next g i).l2.regs.rspValid = false) :
    Away g (s.next g i) := by
  have hstep := hs.l2Step (i := i)
  by_cases hi : s.l2.view.regs.state = .idle
  · -- the request is accepted in this cycle
    have hacc := L2View.looking_of_idle hstep hi hl hf
    have hnew := L2View.accepted_step hstep hacc
    obtain ⟨hout, hreq⟩ := hs.req_of_accepts hacc (hnew.fromD.symm.trans hf)
    have hreq' : (s.l2Pins g i).req = s.l2Req g := rfl
    rw [hreq] at hreq'
    have hc : L2.l2Cacheable (s.l2Pins g i) = s.l1d.regs.memReq.cacheable := by
      rw [l2Cacheable_eq hnc, hreq]
    have hop : s.l1d.regs.memReq.cacheable = true → s.l1d.regs.memReq.opcode ≠ .sw := by
      intro h1 h2
      have hrsp := hnew.rsp.symm.trans hr
      rw [hc, hreq', h1, h2] at hrsp
      cases hrsp
    have hnf := hs.not_fills_of_accepts hacc
    have hold : ∀ {x j}, L1d.Holds g (s.next g i).l1d.arr x j → L1d.Holds g s.l1d.arr x j := by
      intro x j hh
      rcases L1d.holds_step hs.act hs.sent hh with hh | ⟨hf, -⟩
      · exact hh
      · exact absurd hf hnf
    have hset := L1d.sent_away hs.sent hout hop
    have haddr : (s.next g i).l2.regs.saveaddr = s.l1d.regs.memReq.addr :=
      hnew.saveaddr.trans (by rw [hreq'])
    have hcol : (s.next g i).l2.regs.reqColour = g.colour s.l1d.regs.memReq.idx :=
      hnew.reqColour.trans (by rw [hreq'])
    refine ⟨fun hh => ?_, fun hun hwb j hh => ?_⟩
    · rw [haddr, hcol, (L1d.sent_placed hs.sent hout).set] at hh
      exact hset (hold hh)
    · have hcach : s.l1d.regs.memReq.cacheable = true := by
        have h1 := hnew.isUncache.symm.trans hun
        rw [hc] at h1
        simpa using h1
      have hopc : (s.next g i).l2.regs.opcode = s.l1d.regs.memReq.opcode :=
        hnew.opcode.trans (by rw [hreq'])
      rw [hopc] at hwb
      rw [haddr] at hh
      have hj := h.lone hout hcach hwb j (hold hh)
      subst hj
      exact hset (hold hh)
  · -- it was in service
    have hi' : s.l2.regs.state ≠ .idle := hi
    obtain ⟨hlk, hun⟩ := L2View.looking_step hstep hi hl
    have hsame := L2View.sameReq_step hstep hi
    have hf' : s.l2.regs.fromD = true := hsame.fromD.symm.trans hf
    have haddr : (s.next g i).l2.regs.saveaddr = s.l2.regs.saveaddr := hsame.saveaddr
    have hcol : (s.next g i).l2.regs.reqColour = s.l2.regs.reqColour := hsame.reqColour
    have hopc : (s.next g i).l2.regs.opcode = s.l2.regs.opcode := hsame.opcode
    have hun' : (s.next g i).l2.regs.isUncache = s.l2.regs.isUncache := hun
    cases hrsp : s.l2.regs.rspValid with
    | false =>
      have ha := h.away hlk hf' hrsp
      refine ⟨fun hh => ?_, fun hu hw => ?_⟩
      · rw [haddr, hcol] at hh
        exact ha.set (shrink hs h hi' hh)
      · rw [haddr]
        exact absent_next hs h hi' (ha.line (hun'.symm.trans hu) (by rwa [hopc] at hw))
    | true =>
      -- the early response to a writeback empties the set it came from
      have hw : s.l2.regs.state = .waitForRam := by
        rcases hs.wf.pulses.rsp hrsp with h' | h'
        · exact absurd h' hi
        · exact h'
      obtain ⟨hsw, hnu⟩ := h.early hrsp hw
      have hsv : s.served = true := by simp [served, hrsp]
      have hl := h.link hsv hf'
      have hcach : s.l1d.regs.memReq.cacheable = true := by
        have ht := hl.tagged hi'
        rw [Tagged, hw, hnu] at ht
        simpa using ht.symm
      have hmr : (s.l1dPins i).memRspValid = true := by
        change s.l1dRsp = true
        rw [hs.wf.route.1, hrsp, hf']
        rfl
      have hopq : s.l1d.regs.memReq.opcode = .sw := hl.opcode.symm.trans hsw
      have hempty := L1d.written_step hs.l1dStep hs.sent (hs.wf.expects hmr) hmr hopq hcach
      have habs : Absent g (s.next g i) s.l2.regs.saveaddr := by
        intro k hk
        have hk' := shrink hs h hi' hk
        rw [hl.addr] at hk'
        have hkx := h.lone (hs.out_of_served hsv hf') hcach (.inl hopq) k hk'
        rw [hkx] at hk
        exact absurd hk.1 (by simpa using hempty)
      refine ⟨fun hh => ?_, fun _ _ => ?_⟩
      · rw [haddr] at hh
        exact habs _ hh
      · rw [haddr]
        exact habs

theorem gone_next (he : Evicting (s.next g i).l2.regs)
    (hv : (s.next g i).l2.view.cur.valid = true) :
    Absent g (s.next g i) (curAddr g (s.next g i).l2.view) := by
  obtain ⟨hi, ⟨hcur, hidx, hcase⟩ | hz⟩ := L2View.evicting_step (hs.l2Step (i := i)) he
  · have haddr : curAddr g (s.next g i).l2.view = curAddr g s.l2.view := by
      rw [curAddr, hcur, hidx]
      rfl
    rw [haddr]
    rw [hcur] at hv
    refine absent_next hs h hi ?_
    rcases hcase with he | ⟨hc, ⟨hr, ha, hp⟩ | ⟨hp, hun, ho, hh⟩⟩
    · exact h.gone he hv
    · -- the probed set was the recorded one
      obtain ⟨-, -, hpa, hpc⟩ := hs.wf.pulses.probe hr
      have hans := h.answered ha
      intro j hj
      have hrec := h.incl _ j hj
      have hx : g.l2Idx (curAddr g s.l2.view) = s.l2.view.regs.idx :=
        g.l2Idx_l2Line _ hs.wf.ctl.idx_lt
      have hpres := (hrec.cur_of_idx hx).2.2
      have hpa' : s.l2.regs.probeAddr = curAddr g s.l2.view := hpa
      have hpc' : s.l2.regs.probeColour = g.colour j := by
        refine hpc.trans ?_
        rw [hpres]
      rw [hpa', hpc', hj.2.2.set] at hans
      exact hans hj
    · cases hpr : s.l2.regs.probed with
      | true => exact h.gone (.inr (.inr (.inr (.inr ⟨hpr, .inr hc⟩)))) hv
      | false =>
        refine absent_of_pres hs h ?_
        have hpr' : s.l2.view.regs.probed = false := hpr
        cases hpd : s.l2.view.cur.pres.pd
        · rfl
        · simp [L2View.needsProbe, hpr', hun, ho, hh, hv, hpd] at hp
  · -- a line that has just come is not recorded
    intro j hj
    have hrec := incl_next hs h _ j hj
    have hidx : (s.next g i).l2.view.regs.idx < g.l2Lines := (wf_next hs.wf).ctl.idx_lt
    have hpres := (hrec.cur_of_idx (g.l2Idx_l2Line _ hidx)).2.2
    rw [hz] at hpres
    cases hpres

end Present

/-- A clock edge in which the L2 accepts no uncached access to a line of the L1D keeps the
presence record right. -/
theorem present_next (hs : Sound g s) (h : Present g s) (hu : Undisturbed g s i) :
    Present g (s.next g i) where
  incl := h.incl_next hs
  link := h.link_next hs hu.1
  early := L2View.early_step (hs.l2Step (i := i))
  fromI := h.fromI_next hs
  granted := h.granted_next hs hu.1
  lone := h.lone_next hs
  away := h.away_next hs hu.1
  gone := h.gone_next hs
  uncached := h.uncached_next hs hu
  answered := hs.answered_next

/-- Nothing is held or recorded at reset. -/
theorem present_reset (c : Contents) : Present g (reset c false) where
  incl _ _ h := absurd h.1 Bool.false_ne_true
  link h := absurd h Bool.false_ne_true
  early h := absurd h Bool.false_ne_true
  fromI h := absurd h Bool.false_ne_true
  granted h := absurd h Bool.false_ne_true
  lone h := absurd h Bool.false_ne_true
  away h := absurd h Bool.false_ne_true
  gone h := by
    rcases h with h | h | h | h | ⟨h, -⟩
    · cases h
    · cases h
    · cases h
    · cases h
    · cases h
  uncached h := absurd h Bool.false_ne_true
  answered h := absurd h Bool.false_ne_true

/-- The presence record is right in every state of an undisturbed run. -/
theorem present_run {c : Contents} {is : List Stim}
    (h : Hw.RunOk (next g) (Undisturbed g) (reset c false) is) :
    Sound g ((reset c false).run g is) ∧ Present g ((reset c false).run g is) :=
  h.invariant (I := fun s => Sound g s ∧ Present g s)
    (fun _ _ hI hu => ⟨sound_next hI.1, present_next hI.1 hI.2 hu⟩)
    ⟨sound_reset c false, present_reset c⟩

/-- **The presence record.**  In every state of a run in which the L2 accepts no uncached
access to a line that the L1D holds: a line that is valid in the L1D is valid in the L2 under
its tag, and recorded as present at the colour of its set; hence it is in no other set. -/
theorem presence_record (g : Geometry) (c : Contents) (is : List Stim)
    (h : Hw.RunOk (next g) (Undisturbed g) (reset c false) is) :
    let s := (reset c false).run g is
    (∀ j, (s.l1d.arr j).valid = true →
      let x := g.l1Line (s.l1d.arr j).tag j
      let e := s.l2.entry (g.l2Idx x)
      e.valid = true ∧ e.tag = g.l2Tag x ∧ e.pres = ⟨true, g.colour j⟩) ∧
    (∀ j k, (s.l1d.arr j).valid = true → (s.l1d.arr k).valid = true →
      g.l1Line (s.l1d.arr j).tag j = g.l1Line (s.l1d.arr k).tag k → j = k) := by
  intro s
  obtain ⟨hs, hp⟩ : Sound g s ∧ Present g s := present_run h
  refine ⟨fun j hv => ?_, fun j k hj hk he => ?_⟩
  · have hr := hp.incl _ j (hs.sane.holds hv)
    have ht : s.l2.regs.state ≠ .flushTriage := by
      intro ht
      have hre := hs.phase.rests (.inr (.inl (by rw [ht]; rfl)))
      exact absurd hv (by simp [hre.empty j])
    unfold Recorded at hr
    rw [L2.view_arr ht] at hr
    exact hr
  · have hj' := hs.sane.holds hj
    rw [he] at hj'
    exact hp.unique hj' (hs.sane.holds hk)

/-- A hierarchy with one line in each cache. -/
def oneLine : Geometry := ⟨1, 1, 1, 4, Nat.one_pos, Nat.one_pos, Nat.one_pos⟩

/-- RAMs that come up with zeros. -/
def blank : Contents where
  l1dTag _ := 0
  l1dData _ := Line.zero
  l2Data := ⟨fun _ => Line.zero, 0, false, Line.zero, Line.zero⟩
  l2Tag := ⟨fun _ => 0, 0, false, 0, 0⟩
  l2Valid := ⟨fun _ => false, 0, false, false, false⟩
  l2Dirty := ⟨fun _ => false, 0, false, false, false⟩
  l2Pres := ⟨fun _ => Pres.zero, 0, false, Pres.zero, Pres.zero⟩
  dram _ := Line.zero

/-- A cycle without requests; the memory replies in the cycle it is asked in. -/
def quiet : Stim where
  coreOp := .none
  coreReqValid := false
  coreReq := L1d.blankReq
  p2Ready := true
  restartColor := false
  tlbHit := true
  tlbValid := true
  tlbDirty := true
  tlbOor := false
  tlbCached := true
  tlbPpn := 0
  matchLink2 := false
  sbBlk := false
  sbFwd := false
  sbDataValid := false
  sbDataIdx := 0
  sbData := 0
  retiredPending := false
  drainDsComplete := false
  dead := false
  req2Nonspec := true
  mqHeadNonspec := true
  noneInflight := true
  dmaInvalReq := false
  dmaInvalAddr := 0
  l1iMiss := false
  l1iAddr := 0
  l1iCacheable := true
  l1iFlushComplete := false
  memRspValid := true
  memRspBad := false
  snoopReqValid := false
  snoopReqAddr := 0
  snoopReqWbinv := false
  reqOk := ⟨by decide, by decide, by decide⟩

/-- A byte store, and its commit. -/
def store (commit : Bool) : CoreReq :=
  { L1d.blankReq with op := .sb, isStore := true, commit := commit, cached := true, lsuHold := true }

/-- The caches come out of reset; a byte is stored to line 0, which the L1D fetches. -/
def storeRun : List Stim :=
  List.replicate 4 quiet ++
    [{ quiet with
        coreReqValid := true, coreReq := store false, reqOk := ⟨by decide, by decide, by decide⟩ },
      { quiet with sbDataValid := true, sbData := 5 },
      { quiet with
        coreReqValid := true, coreReq := store true, reqOk := ⟨by decide, by decide, by decide⟩ }] ++
    List.replicate 13 quiet

theorem presence_record_store :
    let s := (reset blank false).run oneLine storeRun
    let e := s.l2.entry (oneLine.l2Idx (oneLine.l1Line (s.l1d.arr 0).tag 0))
    (s.l1d.arr 0).valid = true ∧ e.valid = true ∧ e.pres = ⟨true, oneLine.colour 0⟩ := by
  intro s e
  have hv : (s.l1d.arr 0).valid = true := by decide +kernel
  obtain ⟨h1, -, h2⟩ := (presence_record oneLine blank storeRun (by decide +kernel)).1 0 hv
  exact ⟨hv, h1, h2⟩

end Hier

end R9999
