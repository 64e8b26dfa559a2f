import R9999.L2.View

/-!
# The control state of the L2

What the registers of the L2 mean in each state of its machine: which request is in
service and where its line is looked up, what the outstanding memory request is, and
which handshake pulses can be high.  `ctl_step` shows that one clock edge keeps these
facts whatever the inputs do, provided that the L1 requests are ones the L1 caches can
make (`ReqOk`).
-/

namespace R9999

/-- The requests an L1 cache makes: uncached accesses are word loads and stores of the
bus, cacheable ones are fills, writebacks and the cache-management operations. -/
def ReqOk (q : L1Req) : Prop :=
  if q.cacheable then
    q.opcode = .lw ∨ q.opcode = .sw ∨ q.opcode = .wb ∨ q.opcode = .invl ∨ q.opcode = .pgdrop
  else q.opcode = .lw ∨ q.opcode = .sw

instance (q : L1Req) : Decidable (ReqOk q) := by
  unfold ReqOk
  exact inferInstance

namespace L2View

open L2

variable {g : Geometry} {v v' : L2View} {i : Input}

section Tick

variable (r : Regs) (i : Input)

@[simp] theorem tick_tag : (tick r i).tag = r.tag := rfl
@[simp] theorem tick_opcode : (tick r i).opcode = r.opcode := rfl
@[simp] theorem tick_fromD : (tick r i).fromD = r.fromD := rfl
@[simp] theorem tick_reqColour : (tick r i).reqColour = r.reqColour := rfl
@[simp] theorem tick_addr : (tick r i).addr = r.addr := rfl
@[simp] theorem tick_saveaddr : (tick r i).saveaddr = r.saveaddr := rfl
@[simp] theorem tick_memReq : (tick r i).memReq = r.memReq := rfl
@[simp] theorem tick_memOpcode : (tick r i).memOpcode = r.memOpcode := rfl
@[simp] theorem tick_rspData : (tick r i).rspData = r.rspData := rfl
@[simp] theorem tick_rspValid : (tick r i).rspValid = false := rfl
@[simp] theorem tick_reqAck : (tick r i).reqAck = false := rfl
@[simp] theorem tick_snoopAck : (tick r i).snoopAck = false := rfl
@[simp] theorem tick_snoopDone : (tick r i).snoopDone = false := rfl
@[simp] theorem tick_snpWbinv : (tick r i).snpWbinv = r.snpWbinv := rfl
@[simp] theorem tick_storeData : (tick r i).storeData = r.storeData := rfl
@[simp] theorem tick_storeMask : (tick r i).storeMask = r.storeMask := rfl
@[simp] theorem tick_isUncache : (tick r i).isUncache = r.isUncache := rfl
@[simp] theorem tick_uncacheMask : (tick r i).uncacheMask = r.uncacheMask := rfl
@[simp] theorem tick_memReqStoreData : (tick r i).memReqStoreData = r.memReqStoreData := rfl
@[simp] theorem tick_probeReq : (tick r i).probeReq = r.probeReq := rfl
@[simp] theorem tick_probeAddr : (tick r i).probeAddr = r.probeAddr := rfl
@[simp] theorem tick_probeColour : (tick r i).probeColour = r.probeColour := rfl
@[simp] theorem tick_probed : (tick r i).probed = r.probed := rfl
@[simp] theorem tick_probeDirty : (tick r i).probeDirty = r.probeDirty := rfl
@[simp] theorem tick_probeData : (tick r i).probeData = r.probeData := rfl
@[simp] theorem tick_flushComplete : (tick r i).flushComplete = false := rfl

end Tick

/-- An index and a tag that name a line. -/
def Names (g : Geometry) (idx tag : Nat) (x : LineAddr) : Prop :=
  idx = g.l2Idx x ∧ tag = g.l2Tag x

/-- The index and tag registers name the saved line. -/
def Lookup (g : Geometry) (r : Regs) : Prop := Names g r.idx r.tag r.saveaddr

/-- The operations that can be looked up, uncached or not. -/
def OpOk (isUncache : Bool) (op : MemOp) : Prop :=
  if isUncache then op = .lw ∨ op = .sw
  else op = .lw ∨ op = .sw ∨ op = .wb ∨ op = .invl ∨ op = .pgdrop ∨ op = .snoopInvl

/-- A fill or a writeback whose line is being brought into the L2. -/
def Filling (g : Geometry) (r : Regs) : Prop :=
  Lookup g r ∧ r.isUncache = false ∧ r.probeDirty = false ∧ (r.opcode = .lw ∨ r.opcode = .sw)

/-- What the registers mean, state by state. -/
def Mode (g : Geometry) (v : L2View) : Prop :=
  match v.regs.state with
  | .init | .idle | .waitStoreIdle => v.regs.isUncache = false
  | .waitForRam =>
      Lookup g v.regs ∧ OpOk v.regs.isUncache v.regs.opcode ∧ v.regs.probeDirty = false ∧
        v.regs.addr = v.regs.saveaddr
  | .checkValidAndTag =>
      Lookup g v.regs ∧ OpOk v.regs.isUncache v.regs.opcode ∧
        (v.regs.probeDirty = true →
          v.cur.valid = true ∧ v.regs.probed = true ∧ v.regs.isUncache = false ∧
            (fillOp v.regs.opcode = true ∨ hit v.regs v.cur = true)) ∧
        v.regs.addr = v.regs.saveaddr
  | .dirtyStore =>
      Filling g v.regs ∧ v.regs.memOpcode = .sw ∧ v.regs.storeMask = Mask.full ∧
        g.l2Idx v.regs.addr = v.regs.idx ∧ v.regs.addr ≠ v.regs.saveaddr
  | .storeTurnaround | .cleanReload =>
      Filling g v.regs ∧ v.regs.memOpcode = .lw ∧ v.regs.addr = v.regs.saveaddr
  | .waitCleanReload => Filling g v.regs ∧ v.regs.addr = v.regs.saveaddr
  | .flushWait | .flushTriage => v.regs.isUncache = false ∧ v.regs.storeMask = Mask.full
  | .flushStore =>
      v.regs.isUncache = false ∧ v.regs.storeMask = Mask.full ∧ v.regs.memOpcode = .sw ∧
        g.l2Idx v.regs.addr = v.regs.idx ∧ v.cur.valid = false
  | .uncacheStore =>
      Lookup g v.regs ∧ v.regs.isUncache = false ∧ v.regs.memOpcode = .sw ∧
        v.regs.addr = v.regs.saveaddr ∧ hit v.regs v.cur = false ∧
        (v.regs.opcode = .sw ∨ v.regs.opcode = .wb)
  | .uncacheLoad =>
      Lookup g v.regs ∧ v.regs.isUncache = false ∧ v.regs.memOpcode = .lw ∧
        v.regs.addr = v.regs.saveaddr ∧ hit v.regs v.cur = false ∧ v.regs.opcode = .lw
  | .uncacheWbDrain =>
      Lookup g v.regs ∧ v.regs.isUncache = false ∧ v.regs.memOpcode = .sw ∧
        v.regs.storeMask = Mask.full ∧ v.regs.addr = v.regs.saveaddr ∧
        hit v.regs v.cur = false ∧
        (v.regs.opcode = .lw ∨ v.regs.opcode = .sw ∨ v.regs.opcode = .invl ∨
          v.regs.opcode = .snoopInvl)
  | .uncacheWbTurnaround =>
      Lookup g v.regs ∧ v.regs.isUncache = false ∧ hit v.regs v.cur = false ∧
        (v.regs.opcode = .lw ∨ v.regs.opcode = .sw ∨ v.regs.opcode = .invl ∨
          v.regs.opcode = .snoopInvl)

/-- The control facts of a state. -/
structure Ctl (g : Geometry) (v : L2View) : Prop where
  idx_lt : v.regs.idx < g.l2Lines
  mode : Mode g v

theorem hit_clearEntry (r : Regs) (e : L2Entry) : hit r (clearEntry e) = false := by
  simp [hit, clearEntry]

/-- A resident line that hits is the line looked up. -/
theorem l2Line_of_hit (hl : Lookup g v.regs) (hh : hit v.regs v.cur = true) :
    g.l2Line v.cur.tag v.regs.idx = v.regs.saveaddr := by
  have ht : v.regs.tag = v.cur.tag := by
    simp only [hit, Bool.and_eq_true, beq_iff_eq] at hh
    exact hh.2
  rw [← ht, hl.1, hl.2, g.l2Line_tag_idx]

/-- A valid resident line that misses is another line than the one looked up. -/
theorem l2Line_of_miss (hx : v.regs.idx < g.l2Lines) (hl : Lookup g v.regs)
    (hv : v.cur.valid = true) (hh : hit v.regs v.cur = false) :
    g.l2Line v.cur.tag v.regs.idx ≠ v.regs.saveaddr := by
  intro he
  have ht : v.cur.tag = v.regs.tag := by
    rw [hl.2, ← he, g.l2Tag_l2Line _ hx]
  simp [hit, hv, ht] at hh

theorem cur_setCur (e : L2Entry) (r : Regs) (hr : r.idx = v.regs.idx) :
    (⟨r, v.setCur e⟩ : L2View).cur = e := by
  simp [cur, setCur, hr]

/-- What a probe is sent for: a valid line, which is the line looked up unless the probe
precedes an eviction. -/
theorem needsProbe_cases {r : Regs} {w : L2Entry} (h : needsProbe r w = true) :
    r.probed = false ∧ r.isUncache = false ∧ w.valid = true ∧ w.pres.pd = true ∧
      (fillOp r.opcode = true ∨ hit r w = true) := by
  simp only [needsProbe, isAlias, hit, Bool.and_eq_true, Bool.or_eq_true] at h ⊢
  grind

theorem ctl_step (h : Step g v i v') (hc : Ctl g v) (hq : i.reqValid = true → ReqOk i.req) :
    Ctl g v' := by
  obtain ⟨hx, hm⟩ := hc
  cases h
  case init hs hx' | initLast hs hx' =>
    refine ⟨g.l2Succ_lt _, ?_⟩
    simp_all [Mode]
  case idle | idleFlushSkip =>
    refine ⟨g.l2Idx_lt _, ?_⟩
    simp_all [Mode]
  case idleFlush =>
    refine ⟨g.l2Lines_pos, ?_⟩
    simp_all [Mode]
  case idleSnoop =>
    refine ⟨g.l2Idx_lt _, ?_⟩
    simp_all [Mode, Lookup, Names, OpOk]
  case idleReq hs hf hn hv hc =>
    refine ⟨g.l2Idx_lt _, ?_⟩
    have hk := hq hv
    simp_all [Mode, Lookup, Names, OpOk, ReqOk, l2Cacheable]
    grind
  case idleUncached hs hf hn hv hc =>
    refine ⟨g.l2Idx_lt _, ?_⟩
    have hk := hq hv
    simp_all [Mode, Lookup, Names, OpOk, ReqOk, l2Cacheable]
    grind [MemOp.code]
  case memWait hs hr =>
    refine ⟨hx, ?_⟩
    cases hst : v.regs.state <;> simp_all [Mode, memWaiting, Filling, Lookup, cur, hit]
  case uncachedHit hs hu hh hd =>
    refine ⟨hx, ?_⟩
    simp only [Mode, hs, OpOk, hu, if_true] at hm
    rcases hm.2.1 with ho | ho <;>
      simp_all [Mode, uncachedState, Lookup, cur, setCur, hit_clearEntry]
  case uncachedMiss hs hu hh =>
    refine ⟨hx, ?_⟩
    simp only [Mode, hs, OpOk, hu, if_true] at hm
    rcases hm.2.1 with ho | ho <;> simp_all [Mode, uncachedState, Lookup, cur, hit]
  case turnaroundIssue hs hi hn =>
    refine ⟨hx, ?_⟩
    simp only [Mode, hs] at hm
    obtain ⟨hl, hu, hh, ho⟩ := hm
    rcases ho with ho | ho | ho | ho <;>
      simp_all [Mode, uncachedState, Lookup, cur, hit]
  case evict hs hu hp ho hh hd =>
    refine ⟨hx, ?_⟩
    simp only [Mode, hs, OpOk, hu] at hm
    obtain ⟨hl, hop, hpd, -⟩ := hm
    have hv : v.cur.valid = true := by
      rcases (Bool.or_eq_true _ _).mp hd with hd | hd
      · exact ((Bool.and_eq_true _ _).mp hd).1
      · exact (hpd hd).1
    have hne := l2Line_of_miss hx hl hv hh
    have hi := g.l2Idx_l2Line v.cur.tag hx
    have hop' : v.regs.opcode = .lw ∨ v.regs.opcode = .sw := by
      rcases hop with h | h | h | h | h | h <;> simp_all [fillOp]
    simp_all [Mode, Filling, Lookup]
  case dropWriteBack hs hu hp ho hh hd =>
    refine ⟨hx, ?_⟩
    simp only [Mode, hs] at hm
    have hl := l2Line_of_hit hm.1 hh
    rcases ho with ho | ⟨ho, -⟩ <;>
      simp_all [Mode, Lookup, cur, setCur, hit_clearEntry]
  case uncachedWriteBack hs hu hh hd =>
    refine ⟨hx, ?_⟩
    simp only [Mode, hs, OpOk, hu, if_true] at hm
    have hl := l2Line_of_hit hm.1 hh
    rcases hm.2.1 with ho | ho <;>
      simp_all [Mode, Lookup, cur, setCur, hit_clearEntry]
  case flushTriageNext | flushTriageLast | flushStoreNext | flushStoreLast =>
    refine ⟨g.l2Succ_lt _, ?_⟩
    simp_all [Mode]
  case probeWait hs hp ha =>
    refine ⟨hx, ?_⟩
    simp only [Mode, tick_state, hs] at hm ⊢
    exact hm
  case probeAcked hs hp hr ha =>
    refine ⟨hx, ?_⟩
    simp only [Mode, tick_state, hs] at hm ⊢
    obtain ⟨-, hu, hv, -, ho⟩ := needsProbe_cases hp
    exact ⟨hm.1, hm.2.1, fun _ => ⟨hv, trivial, hu, ho⟩, hm.2.2.2⟩
  case wb hs hu hp ho =>
    refine ⟨hx, ?_⟩
    simp only [Mode, hs] at hm
    by_cases hh : hit v.regs v.cur = true
    · simp_all [Mode, Lookup, cur, setCur, hit]
    · rw [if_neg hh]
      simp_all [Mode, Lookup, cur, hit]
  case hitOther hs hu hp ho hl hw hh =>
    refine ⟨hx, ?_⟩
    simp only [Mode, hs, OpOk, hu] at hm
    obtain ⟨-, hop, -⟩ := hm
    rcases hop with h | h | h | h | h | h <;> simp_all [fillOp]
  case reload hs hu hp ho hh hd =>
    refine ⟨hx, ?_⟩
    simp only [Mode, hs, OpOk, hu] at hm
    obtain ⟨hl, hop, -, ha⟩ := hm
    have hop' : v.regs.opcode = .lw ∨ v.regs.opcode = .sw := by
      rcases hop with h | h | h | h | h | h <;> simp_all [fillOp]
    have hpd := ((Bool.or_eq_false_iff).mp hd).2
    simp_all [Mode, Filling, Lookup]
  case waitCleanReload hs =>
    refine ⟨hx, ?_⟩
    simp only [Mode, hs, Filling] at hm
    obtain ⟨⟨hl, hu, hpd, ho⟩, ha⟩ := hm
    refine ⟨hl, ?_, hpd, ha⟩
    rcases ho with ho | ho <;> simp [OpOk, hu, ho]
  case flushTriageWb hs hd =>
    refine ⟨hx, ?_⟩
    have hi := g.l2Idx_l2Line v.cur.tag hx
    simp_all [Mode, cur, setCur, clearEntry]
  all_goals
    refine ⟨hx, ?_⟩
    simp_all [Mode, Filling, Lookup, cur, hit]

end L2View

end R9999
