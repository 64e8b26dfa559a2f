import R9999.L2.Control

/-!
# The handshakes of the L2

Which pulses the L2 can raise in which state, and what it still owes: the response to the
L1 request in service (`owes`) and the completion of the snoop in service (`snooping`).
`owes_step` and `snooping_step` are the conservation laws of one clock edge; `probe_step`
says that a probe is held until it is acknowledged.
-/

namespace R9999

namespace L2View

open L2

/-- The L2 has accepted an L1 request and has not answered it yet. -/
def owes (r : Regs) : Bool :=
  match r.state with
  | .waitForRam | .checkValidAndTag =>
      !decide (r.opcode = .snoopInvl) && (r.isUncache || !decide (r.opcode = .sw))
  | .dirtyStore | .storeTurnaround | .cleanReload | .waitCleanReload => !decide (r.opcode = .sw)
  | .uncacheStore | .uncacheLoad => true
  | .uncacheWbDrain | .uncacheWbTurnaround => !decide (r.opcode = .snoopInvl)
  | _ => false

/-- The L2 has accepted a snoop and has not completed it yet. -/
def snooping (r : Regs) : Bool :=
  match r.state with
  | .waitForRam | .checkValidAndTag | .uncacheWbDrain | .uncacheWbTurnaround =>
      decide (r.opcode = .snoopInvl)
  | _ => false

/-- The request on the pins is accepted in this cycle. -/
def accepts (r : Regs) (i : Input) : Bool :=
  decide (r.state = .idle) && !(tick r i).flushReq && !i.snoopReqValid && i.reqValid

/-- The snoop on the pins is accepted in this cycle. -/
def acceptsSnoop (r : Regs) (i : Input) : Bool :=
  decide (r.state = .idle) && !(tick r i).flushReq && i.snoopReqValid

/-- The states in which a pulse can be high. -/
structure Pulses (g : Geometry) (v : L2View) : Prop where
  rsp : v.regs.rspValid = true → v.regs.state = .idle ∨ v.regs.state = .waitForRam
  rspOwes : v.regs.rspValid = true → owes v.regs = false
  ack : v.regs.reqAck = true → v.regs.state = .waitForRam
  snoop : v.regs.snoopDone = true → v.regs.state = .idle
  memReq : v.regs.memReq = true → memWaiting v.regs.state = true
  /-- A probe is out: its line is the resident one. -/
  probe : v.regs.probeReq = true →
    v.regs.state = .checkValidAndTag ∧ needsProbe v.regs v.cur = true ∧
      v.regs.probeAddr = g.l2Line v.cur.tag v.regs.idx ∧
      v.regs.probeColour = v.cur.pres.pidx

variable {g : Geometry} {v v' : L2View} {i : Input}

theorem needsProbe_uncached {r : Regs} {w : L2Entry} (h : r.isUncache = true) :
    needsProbe r w = false := by
  simp [needsProbe, h]

/-- While a probe is out, the L2 only waits for its acknowledge. -/
theorem probe_step (h : Step g v i v') (hs : v.regs.state = .checkValidAndTag)
    (hp : needsProbe v.regs v.cur = true) :
    (v.regs.probeReq && i.probeAck) = false ∧
        v' = ⟨{ tick v.regs i with
            probeReq := true, probeAddr := g.l2Line v.cur.tag v.regs.idx,
            probeColour := v.cur.pres.pidx }, v.arr⟩ ∨
      (v.regs.probeReq && i.probeAck) = true ∧
        v' = ⟨{ tick v.regs i with
            probeReq := false, probeAddr := g.l2Line v.cur.tag v.regs.idx,
            probeColour := v.cur.pres.pidx, probed := true, probeDirty := i.probeDirty,
            probeData := i.probeData }, v.arr⟩ := by
  cases h
  case probeWait ha => exact .inl ⟨ha, rfl⟩
  case probeAcked hr ha => exact .inr ⟨by simp [hr, ha], rfl⟩
  case memWait hm _ => simp [hs, memWaiting] at hm
  case uncachedWriteBack hu _ _ => simp [needsProbe_uncached hu] at hp
  case uncachedHit hu _ _ => simp [needsProbe_uncached hu] at hp
  case uncachedMiss hu _ => simp [needsProbe_uncached hu] at hp
  all_goals simp_all

/-- The response of the request in service: what was owed or is accepted now is answered
now or still owed. -/
theorem owes_step (h : Step g v i v') (hc : Ctl g v)
    (hq : i.reqValid = true → ReqOk i.req) :
    (owes v'.regs).toNat + v'.regs.rspValid.toNat =
      (owes v.regs).toNat + (accepts v.regs i).toNat := by
  have hm := hc.mode
  cases h
  case memWait hs _ =>
    cases hst : v.regs.state <;> simp_all [owes, accepts, memWaiting] <;> rfl
  case idleReq hs hf hn hv hc' =>
    have hk := hq hv
    simp only [l2Cacheable, Bool.and_eq_true] at hc'
    rw [ReqOk, if_pos hc'.1] at hk
    rcases hk with ho | ho | ho | ho | ho <;> simp_all [owes, accepts, Mode]
  case idleSnoop hs hf hn => simp_all [owes, accepts, Mode]
  case idleUncached hs hf hn hv hc' =>
    have hk : i.req.opcode ≠ .snoopInvl := by
      have hk := hq hv
      intro ho
      simp [ReqOk, ho] at hk
    simp_all [owes, accepts, Mode]
  case uncachedHit hs hu _ _ | uncachedMiss hs hu _ =>
    simp only [Mode, hs, OpOk, hu, if_true] at hm
    rcases hm.2.1 with ho | ho <;> simp_all [owes, accepts, uncachedState]
  case uncachedWriteBack hs hu _ _ =>
    simp only [Mode, hs, OpOk, hu, if_true] at hm
    rcases hm.2.1 with ho | ho <;> simp_all [owes, accepts]
  case dropWriteBack hs hu _ ho _ _ =>
    rcases ho with ho | ho <;> simp_all [owes, accepts]
  case evict hs hu _ ho _ _ =>
    cases hop : v.regs.opcode <;> simp_all [owes, accepts, fillOp]
  case reload hs hu _ ho _ _ =>
    cases hop : v.regs.opcode <;> simp_all [owes, accepts, fillOp]
  case turnaroundIssue hs hi hn =>
    simp only [Mode, hs] at hm
    obtain ⟨-, -, -, ho⟩ := hm
    rcases ho with ho | ho | ho | ho <;> simp_all [owes, accepts, uncachedState]
  case waitCleanReload hs =>
    simp only [Mode, hs, Filling] at hm
    obtain ⟨⟨-, hu, -, ho⟩, -⟩ := hm
    rcases ho with ho | ho <;> simp_all [owes, accepts]
  all_goals simp_all [owes, accepts] <;> rfl

/-- The completion of the snoop in service. -/
theorem snooping_step (h : Step g v i v') (hc : Ctl g v)
    (hq : i.reqValid = true → ReqOk i.req) :
    (snooping v'.regs).toNat + v'.regs.snoopDone.toNat =
      (snooping v.regs).toNat + (acceptsSnoop v.regs i).toNat := by
  have hm := hc.mode
  cases h
  case memWait hs _ =>
    cases hst : v.regs.state <;> simp_all [snooping, acceptsSnoop, memWaiting]
    rfl
  case idleReq hs hf hn hv hc' | idleUncached hs hf hn hv hc' =>
    have hk : i.req.opcode ≠ .snoopInvl := by
      have hk := hq hv
      intro ho
      simp [ReqOk, ho] at hk
    simp_all [snooping, acceptsSnoop]
  case uncachedHit hs hu _ _ | uncachedMiss hs hu _ =>
    simp only [Mode, hs, OpOk, hu, if_true] at hm
    rcases hm.2.1 with ho | ho <;> simp_all [snooping, acceptsSnoop, uncachedState]
  case uncachedWriteBack hs hu _ _ =>
    simp only [Mode, hs, OpOk, hu, if_true] at hm
    rcases hm.2.1 with ho | ho <;> simp_all [snooping, acceptsSnoop]
  case dropWriteBack hs hu _ ho _ _ =>
    rcases ho with ho | ho <;> simp_all [snooping, acceptsSnoop]
  case evict hs hu _ ho _ _ | reload hs hu _ ho _ _ =>
    cases hop : v.regs.opcode <;> simp_all [snooping, acceptsSnoop, fillOp]
  case turnaroundIssue hs hi hn =>
    simp only [Mode, hs] at hm
    obtain ⟨-, -, -, ho⟩ := hm
    rcases ho with ho | ho | ho | ho <;> simp_all [snooping, acceptsSnoop, uncachedState]
  case waitCleanReload hs =>
    simp only [Mode, hs, Filling] at hm
    obtain ⟨⟨-, hu, -, ho⟩, -⟩ := hm
    rcases ho with ho | ho <;> simp_all [snooping, acceptsSnoop]
  all_goals simp_all [snooping, acceptsSnoop] <;> rfl

/-- The acknowledge answers the acceptance. -/
theorem reqAck_step (h : Step g v i v') : v'.regs.reqAck = accepts v.regs i := by
  cases h
  case memWait hs _ => cases hst : v.regs.state <;> simp_all [accepts, memWaiting]
  all_goals simp_all [accepts]

/-- A clock edge keeps the pulses in their states. -/
theorem pulses_step (h : Step g v i v') (hc : Ctl g v) (hp : Pulses g v)
    (hq : i.reqValid = true → ReqOk i.req) : Pulses g v' := by
  have hacc := reqAck_step h
  have howes := owes_step h hc hq
  refine ⟨?_, ?_, ?_, ?_, ?_, ?_⟩
  · cases h
    all_goals simp_all
  · intro hr
    have hle : (owes v.regs).toNat + (accepts v.regs i).toNat ≤ 1 := by
      cases hs : v.regs.state <;> simp [owes, accepts, hs, Bool.toNat_le]
    rw [hr] at howes
    cases ho : owes v'.regs
    · rfl
    · rw [ho] at howes
      simp only [Bool.toNat_true] at howes
      omega
  · cases h
    all_goals simp_all
  · cases h
    all_goals simp_all
  · have hmr := hp.memReq
    cases h
    case uncachedHit | uncachedMiss | turnaroundIssue =>
      intro _
      simp only [uncachedState]
      split <;> rfl
    all_goals simp_all [memWaiting]
  · intro hpr
    cases hr : v.regs.probeReq
    · -- a new probe
      cases h
      case probeWait hs hp' ha => exact ⟨hs, hp', rfl, rfl⟩
      case probeAcked => cases hpr
      all_goals
        have hf : v.regs.probeReq = true := hpr
        rw [hr] at hf
        cases hf
    · obtain ⟨hs, hn, -⟩ := hp.probe hr
      rcases probe_step h hs hn with ⟨-, rfl⟩ | ⟨-, rfl⟩
      · exact ⟨hs, hn, rfl, rfl⟩
      · cases hpr

/-! ## The request in service -/

/-- The registers that hold the request in service. -/
structure SameReq (r r' : Regs) : Prop where
  opcode : r'.opcode = r.opcode
  fromD : r'.fromD = r.fromD
  reqColour : r'.reqColour = r.reqColour
  saveaddr : r'.saveaddr = r.saveaddr
  tag : r'.tag = r.tag
  storeData : r'.storeData = r.storeData
  snpWbinv : r'.snpWbinv = r.snpWbinv
  uncacheMask : r'.uncacheMask = r.uncacheMask

/-- Outside `IDLE` the request in service does not change. -/
theorem sameReq_step (h : Step g v i v') (hs : v.regs.state ≠ .idle) :
    SameReq v.regs v'.regs := by
  cases h
  case idle h _ _ _ | idleFlushSkip h _ _ | idleFlush h _ _ | idleSnoop h _ _ | idleReq h _ _ _ _
    | idleUncached h _ _ _ _ => exact absurd h hs
  all_goals exact ⟨rfl, rfl, rfl, rfl, rfl, rfl, rfl, rfl⟩

/-- The registers after a request has been accepted. -/
structure Accepted (i : Input) (v v' : L2View) : Prop where
  state : v'.regs.state = .waitForRam
  opcode : v'.regs.opcode = i.req.opcode
  fromD : v'.regs.fromD = i.req.fromD
  reqColour : v'.regs.reqColour = i.req.colour
  saveaddr : v'.regs.saveaddr = i.req.addr
  storeData : v'.regs.storeData = i.req.storeData
  isUncache : v'.regs.isUncache = !l2Cacheable i
  mask : l2Cacheable i = false → v'.regs.uncacheMask = i.req.mask
  rsp : v'.regs.rspValid = (l2Cacheable i && i.req.opcode == .sw)
  arr : v'.arr = v.arr

theorem accepted_step (h : Step g v i v') (ha : accepts v.regs i = true) : Accepted i v v' := by
  simp only [accepts, Bool.and_eq_true, Bool.not_eq_true', decide_eq_true_eq] at ha
  obtain ⟨⟨⟨hs, hf⟩, hn⟩, hv⟩ := ha
  cases h
  case idleReq hc =>
    exact ⟨rfl, rfl, rfl, rfl, rfl, rfl, by rw [hc]; rfl, fun h => absurd hc (by simp [h]),
      by rw [hc]; rfl, rfl⟩
  case idleUncached hc =>
    exact ⟨rfl, rfl, rfl, rfl, rfl, rfl, by rw [hc]; rfl, fun _ => rfl, by rw [hc]; rfl, rfl⟩
  case memWait hm _ => simp [hs, memWaiting] at hm
  all_goals simp_all

/-! ## The flush request machine -/

/-- The states of the flush walk. -/
def walks : State → Bool
  | .flushWait | .flushTriage | .flushStore => true
  | _ => false

/-- The flush request machine advances in every cycle. -/
theorem flushState_step (h : Step g v i v') :
    v'.regs.flushState = (flushComb v.regs i).state ∧
      v'.regs.needL1d = (flushComb v.regs i).needL1d ∧
      v'.regs.needL1i = (flushComb v.regs i).needL1i ∧
      v'.regs.hadL1d = (flushComb v.regs i).hadL1d := by
  cases h <;> exact ⟨rfl, rfl, rfl, rfl⟩

/-- A requested walk is made once: the request stands until its last set is done. -/
theorem flushReq_step (h : Step g v i v') (hk : (tick v.regs i).flushSkip = false)
    (hw : walks v.regs.state = true → v.regs.flushReq = true) :
    v'.regs.flushSkip = false ∧ (walks v'.regs.state = true → v'.regs.flushReq = true) ∧
      (v'.regs.flushReq = (tick v.regs i).flushReq ∧
          v'.regs.flushComplete = (decide (v.regs.state = .init) && decide (v'.regs.state = .idle)) ∧
          (v'.regs.state = .init → v.regs.state = .init) ∨
        v.regs.flushReq = true ∧ walks v.regs.state = true ∧ v'.regs.flushReq = false ∧
          v'.regs.flushComplete = true ∧ v'.regs.state = .idle) := by
  have hwalk : walks v.regs.state = true → (tick v.regs i).flushReq = true := by
    intro h
    simp [tick, combDefault, hw h]
  cases h
  case memWait hs _ =>
    refine ⟨hk, fun h => hwalk h, .inl ⟨rfl, ?_, fun h => ?_⟩⟩
    · cases hst : v.regs.state <;> simp_all [memWaiting]
    · have h' : v.regs.state = .init := h
      simp [h', memWaiting] at hs
  case flushTriageLast hs _ _ | flushStoreLast hs _ _ =>
    refine ⟨hk, (fun h => by cases h), .inr ⟨hw (by rw [hs]; rfl), by rw [hs]; rfl, rfl, rfl, rfl⟩⟩
  case uncachedHit hs _ _ _ | uncachedMiss hs _ _ | turnaroundIssue hs _ _ =>
    refine ⟨hk, fun h => ?_, .inl ⟨rfl, ?_, fun h => ?_⟩⟩
    · simp only [uncachedState] at h
      split at h <;> cases h
    · simp [hs]
    · simp only [uncachedState] at h
      split at h <;> cases h
  all_goals simp_all [walks]

end L2View

end R9999
