import R9999.L2.Model

/-!
# The L2 with one array

The five RAMs of the L2 write a cycle late and read two cycles late, and the flush walk
clears the bits of an index in the same cycle in which the old bits travel through the
read port.  `L2View` is the same state machine over one array that is read and written
at once; its flush walk reads and clears an index in `FLUSH_TRIAGE`.

`L2.view` maps a state of the cache to its view, and `view_next` says that the map
commutes with the clock in every state whose turnaround cycles were kept
(`L2.Settled`).  `settled_next` says that every clock edge keeps them.  Everything about
the L2 above this module is proved on the view.
-/

namespace R9999

/-- The L2's registers over a single array of entries. -/
structure L2View where
  regs : L2.Regs
  arr : Nat → L2Entry

namespace L2

/-- An entry with its valid, dirty and presence bits cleared. -/
def clearEntry (e : L2Entry) : L2Entry :=
  { e with valid := false, dirty := false, pres := Pres.zero }

/-- The entry left by a RAM command; the tag written is the tag register. -/
def Comb.write (c : Comb) (tag : Nat) (e : L2Entry) : L2Entry where
  valid := if c.wrValid then c.valid else e.valid
  dirty := if c.wrDirty then c.dirty else e.dirty
  tag := if c.wrTag then tag else e.tag
  d0 := if c.wrD0 then c.d0 else e.d0
  pres := if c.wrPres then c.pres else e.pres

/-- The command writes none of the five RAMs. -/
def Comb.Quiet (c : Comb) : Prop :=
  c.wrValid = false ∧ c.wrDirty = false ∧ c.wrTag = false ∧ c.wrD0 = false ∧ c.wrPres = false

theorem Comb.Quiet.write {c : Comb} (h : c.Quiet) (tag : Nat) (e : L2Entry) :
    c.write tag e = e := by
  obtain ⟨h1, h2, h3, h4, h5⟩ := h
  simp [Comb.write, h1, h2, h3, h4, h5]

/-- Seen through `entry`, a RAM command takes effect in its own cycle. -/
theorem entry_next (g : Geometry) (s : L2) (i : Input) :
    (s.next g i).entry =
      let c := comb g s.regs s.wires i
      Function.update s.entry c.tIdx (c.write s.regs.tag (s.entry c.tIdx)) := by
  funext j
  by_cases hj : j = (comb g s.regs s.wires i).tIdx
  · subst hj
    simp only [entry, next, Hw.RegRam.contents_clock, Comb.write, Function.update_self]
    congr 1 <;> split <;> simp
  · simp only [entry, next, Hw.RegRam.contents_clock, Function.update_of_ne hj]
    congr 1 <;> split <;> simp [Function.update_of_ne hj]

/-- The entry in the physical arrays, without the waiting writes. -/
def phys (s : L2) (j : Nat) : L2Entry :=
  ⟨s.validRam.ram j, s.dirtyRam.ram j, s.tagRam.ram j, s.dataRam0.ram j, s.presRam.ram j⟩

/-- The RAMs are addressed at the current index, and no waiting write is about to change
the entry there. -/
structure Still (s : L2) : Prop where
  valid : s.validRam.addr = s.regs.idx
  dirty : s.dirtyRam.addr = s.regs.idx
  tag : s.tagRam.addr = s.regs.idx
  data : s.dataRam0.addr = s.regs.idx
  pres : s.presRam.addr = s.regs.idx
  cur : s.phys s.regs.idx = s.entry s.regs.idx

/-- After a command that leaves the entry at the next index alone, the RAMs are still. -/
theorem still_next {g : Geometry} {s : L2} {i : Input}
    (h : (s.next g i).entry (s.next g i).regs.idx = s.entry (s.next g i).regs.idx) :
    (s.next g i).Still :=
  ⟨rfl, rfl, rfl, rfl, rfl, h.symm⟩

/-- From still RAMs, the next read shows the entry at the current index. -/
theorem Still.wires_next {g : Geometry} {s : L2} {i : Input} (h : s.Still) :
    (s.next g i).wires = s.entry s.regs.idx := by
  rw [← h.cur]
  simp only [wires, next, Hw.RegRam.rdData_clock, phys, h.valid, h.dirty, h.tag, h.data, h.pres]

/-- The turnaround cycles of the state machine have been kept: a state that is about to
read finds still RAMs, and a state that looks at the RAM outputs finds the entry at the
current index there (in `FLUSH_TRIAGE`, the entry before the walk cleared it). -/
structure Settled (s : L2) : Prop where
  still : s.regs.state = .waitForRam ∨ s.regs.state = .checkValidAndTag ∨
    s.regs.state = .flushWait → s.Still
  check : s.regs.state = .checkValidAndTag → s.wires = s.entry s.regs.idx
  triage : s.regs.state = .flushTriage → s.entry s.regs.idx = clearEntry s.wires

/-- The view of a state.  In `FLUSH_TRIAGE` the walk's clearing of the current index is
not yet counted. -/
def view (s : L2) : L2View where
  regs := s.regs
  arr :=
    if s.regs.state = .flushTriage then Function.update s.entry s.regs.idx s.wires
    else s.entry

end L2

namespace L2View

open L2

/-- The view after a combinational result: the registers are loaded and the RAM command
takes effect. -/
def after (v : L2View) (c : Comb) : L2View where
  regs := { c.n with idx := c.tIdx }
  arr := Function.update v.arr c.tIdx (c.write v.regs.tag (v.arr c.tIdx))

/-- One clock edge of the view. -/
def next (g : Geometry) (v : L2View) (i : Input) : L2View :=
  let c := comb g v.regs (v.arr v.regs.idx) i
  match v.regs.state with
  | .flushWait => ⟨{ c.n with idx := c.tIdx }, v.arr⟩
  | .flushTriage =>
      ⟨{ c.n with idx := c.tIdx },
        Function.update v.arr v.regs.idx (clearEntry (v.arr v.regs.idx))⟩
  | _ => v.after c

/-- The registers with the one-cycle pulses taken back and the flush request machine
advanced: what every state starts from. -/
def tick (r : Regs) (i : Input) : Regs := (combDefault r i).n

/-- The resident entry. -/
def cur (v : L2View) : L2Entry := v.arr v.regs.idx

/-- The array with the resident entry replaced. -/
def setCur (v : L2View) (e : L2Entry) : Nat → L2Entry := Function.update v.arr v.regs.idx e

/-- The operations that reach the hit and miss arms of `CHECK_VALID_AND_TAG`: fills and
writebacks. -/
def fillOp : MemOp → Bool
  | .invl | .pgdrop | .snoopInvl | .wb => false
  | _ => true

/-- `CHECK_VALID_AND_TAG` has to probe the L1D before it can go on: an alias, a snoop of
a line the L1D may hold, or the eviction of such a line. -/
def needsProbe (r : Regs) (w : L2Entry) : Bool :=
  !r.probed && !r.isUncache &&
    (isAlias r w ||
      (r.opcode == .snoopInvl && hit r w && w.pres.pd) ||
      (fillOp r.opcode && !hit r w && w.valid && w.pres.pd))

/-- The states that wait for a reply of the memory. -/
def memWaiting : State → Bool
  | .dirtyStore | .cleanReload | .flushStore | .uncacheStore | .uncacheLoad
  | .uncacheWbDrain => true
  | _ => false

/-- The state an uncached access waits in. -/
def uncachedState (r : Regs) : State := if r.opcode = .sw then .uncacheStore else .uncacheLoad

/-- What one clock edge can do, in every state.  The registers of the successor are
written as an update of `tick`, its array as the old one with at most one entry
replaced. -/
inductive Step (g : Geometry) (v : L2View) (i : Input) : L2View → Prop
  | init (hs : v.regs.state = .init) (hx : v.regs.idx ≠ g.l2Lines - 1) :
      Step g v i
        ⟨{ tick v.regs i with idx := g.l2Succ v.regs.idx },
          Function.update v.arr (g.l2Succ v.regs.idx)
            (clearEntry (v.arr (g.l2Succ v.regs.idx)))⟩
  | initLast (hs : v.regs.state = .init) (hx : v.regs.idx = g.l2Lines - 1) :
      Step g v i
        ⟨{ tick v.regs i with
            state := .idle, flushComplete := true, idx := g.l2Succ v.regs.idx },
          Function.update v.arr (g.l2Succ v.regs.idx)
            (clearEntry (v.arr (g.l2Succ v.regs.idx)))⟩
  | idle (hs : v.regs.state = .idle)
      (hf : (tick v.regs i).flushReq = false) (hn : i.snoopReqValid = false)
      (hv : i.reqValid = false) :
      Step g v i
        ⟨{ tick v.regs i with
            idx := g.l2Idx i.req.addr, tag := g.l2Tag i.req.addr, addr := i.req.addr,
            saveaddr := i.req.addr, opcode := i.req.opcode, fromD := i.req.fromD,
            reqColour := i.req.colour, probed := false, probeDirty := false,
            storeData := i.req.storeData, storeMask := Mask.empty }, v.arr⟩
  | idleFlushSkip (hs : v.regs.state = .idle)
      (hf : (tick v.regs i).flushReq = true) (hk : (tick v.regs i).flushSkip = true) :
      Step g v i
        ⟨{ tick v.regs i with
            flushComplete := true, flushReq := false, flushSkip := false,
            idx := g.l2Idx i.req.addr, tag := g.l2Tag i.req.addr, addr := i.req.addr,
            saveaddr := i.req.addr, opcode := i.req.opcode, fromD := i.req.fromD,
            reqColour := i.req.colour, probed := false, probeDirty := false,
            storeData := i.req.storeData, storeMask := Mask.empty }, v.arr⟩
  | idleFlush (hs : v.regs.state = .idle)
      (hf : (tick v.regs i).flushReq = true) (hk : (tick v.regs i).flushSkip = false) :
      Step g v i
        ⟨{ tick v.regs i with
            state := .flushWait,
            idx := 0, tag := g.l2Tag i.req.addr, addr := i.req.addr,
            saveaddr := i.req.addr, opcode := i.req.opcode, fromD := i.req.fromD,
            reqColour := i.req.colour, probed := false, probeDirty := false,
            storeData := i.req.storeData, storeMask := Mask.full }, v.arr⟩
  | idleSnoop (hs : v.regs.state = .idle)
      (hf : (tick v.regs i).flushReq = false) (hn : i.snoopReqValid = true) :
      Step g v i
        ⟨{ tick v.regs i with
            state := .waitForRam, snoopAck := true, snpWbinv := i.snoopReqWbinv,
            idx := g.l2Idx i.snoopReqAddr, tag := g.l2Tag i.snoopReqAddr,
            addr := i.snoopReqAddr, saveaddr := i.snoopReqAddr, opcode := .snoopInvl,
            fromD := false, reqColour := i.req.colour, probed := false,
            probeDirty := false, storeData := i.req.storeData,
            storeMask := Mask.empty }, v.arr⟩
  | idleReq (hs : v.regs.state = .idle)
      (hf : (tick v.regs i).flushReq = false) (hn : i.snoopReqValid = false)
      (hv : i.reqValid = true) (hc : l2Cacheable i = true) :
      Step g v i
        ⟨{ tick v.regs i with
            state := .waitForRam, reqAck := true, rspValid := i.req.opcode == .sw,
            isUncache := false,
            idx := g.l2Idx i.req.addr, tag := g.l2Tag i.req.addr, addr := i.req.addr,
            saveaddr := i.req.addr, opcode := i.req.opcode, fromD := i.req.fromD,
            reqColour := i.req.colour, probed := false, probeDirty := false,
            storeData := i.req.storeData, storeMask := Mask.empty }, v.arr⟩
  | idleUncached (hs : v.regs.state = .idle)
      (hf : (tick v.regs i).flushReq = false) (hn : i.snoopReqValid = false)
      (hv : i.reqValid = true) (hc : l2Cacheable i = false) :
      Step g v i
        ⟨{ tick v.regs i with
            state := .waitForRam, reqAck := true, isUncache := true,
            uncacheMask := i.req.mask, memOpcode := i.req.opcode,
            memReqStoreData := i.req.storeData,
            idx := g.l2Idx i.req.addr, tag := g.l2Tag i.req.addr, addr := i.req.addr,
            saveaddr := i.req.addr, opcode := i.req.opcode, fromD := i.req.fromD,
            reqColour := i.req.colour, probed := false, probeDirty := false,
            storeData := i.req.storeData, storeMask := i.req.mask }, v.arr⟩
  | waitForRam (hs : v.regs.state = .waitForRam) :
      Step g v i ⟨{ tick v.regs i with state := .checkValidAndTag }, v.arr⟩
  | probeWait (hs : v.regs.state = .checkValidAndTag)
      (hp : needsProbe v.regs v.cur = true)
      (ha : (v.regs.probeReq && i.probeAck) = false) :
      Step g v i
        ⟨{ tick v.regs i with
            probeReq := true, probeAddr := g.l2Line v.cur.tag v.regs.idx,
            probeColour := v.cur.pres.pidx }, v.arr⟩
  | probeAcked (hs : v.regs.state = .checkValidAndTag)
      (hp : needsProbe v.regs v.cur = true) (hr : v.regs.probeReq = true)
      (ha : i.probeAck = true) :
      Step g v i
        ⟨{ tick v.regs i with
            probeReq := false, probeAddr := g.l2Line v.cur.tag v.regs.idx,
            probeColour := v.cur.pres.pidx, probed := true, probeDirty := i.probeDirty,
            probeData := i.probeData }, v.arr⟩
  | uncachedWriteBack (hs : v.regs.state = .checkValidAndTag)
      (hu : v.regs.isUncache = true) (hh : hit v.regs v.cur = true)
      (hd : v.cur.dirty = true) :
      Step g v i
        ⟨{ tick v.regs i with
            isUncache := false, memReqStoreData := v.cur.d0,
            addr := g.l2Line v.cur.tag v.regs.idx, memOpcode := .sw,
            storeMask := Mask.full, memReq := true, state := .uncacheWbDrain },
          v.setCur (clearEntry v.cur)⟩
  | uncachedHit (hs : v.regs.state = .checkValidAndTag)
      (hu : v.regs.isUncache = true) (hh : hit v.regs v.cur = true)
      (hd : v.cur.dirty = false) :
      Step g v i
        ⟨{ tick v.regs i with
            isUncache := false, addr := v.regs.saveaddr, memOpcode := v.regs.opcode,
            storeMask := v.regs.uncacheMask, memReqStoreData := v.regs.storeData,
            memReq := true, state := uncachedState v.regs },
          v.setCur (clearEntry v.cur)⟩
  | uncachedMiss (hs : v.regs.state = .checkValidAndTag)
      (hu : v.regs.isUncache = true) (hh : hit v.regs v.cur = false) :
      Step g v i
        ⟨{ tick v.regs i with
            isUncache := false, addr := v.regs.saveaddr, memOpcode := v.regs.opcode,
            storeMask := v.regs.uncacheMask, memReqStoreData := v.regs.storeData,
            memReq := true, state := uncachedState v.regs }, v.arr⟩
  | dropWriteBack (hs : v.regs.state = .checkValidAndTag)
      (hu : v.regs.isUncache = false) (hp : needsProbe v.regs v.cur = false)
      (ho : v.regs.opcode = .invl ∨ v.regs.opcode = .snoopInvl ∧ v.regs.snpWbinv = true)
      (hh : hit v.regs v.cur = true) (hd : (v.cur.dirty || v.regs.probeDirty) = true) :
      Step g v i
        ⟨{ tick v.regs i with
            memReqStoreData := newest v.regs v.cur,
            addr := g.l2Line v.cur.tag v.regs.idx, memOpcode := .sw,
            storeMask := Mask.full, memReq := true, state := .uncacheWbDrain },
          v.setCur (clearEntry v.cur)⟩
  | invlDone (hs : v.regs.state = .checkValidAndTag)
      (hu : v.regs.isUncache = false) (hp : needsProbe v.regs v.cur = false)
      (ho : v.regs.opcode = .invl)
      (hd : (v.cur.dirty || v.regs.probeDirty) = false ∨ hit v.regs v.cur = false) :
      Step g v i
        ⟨{ tick v.regs i with state := .idle, rspValid := true },
          if hit v.regs v.cur then v.setCur (clearEntry v.cur) else v.arr⟩
  | pgdrop (hs : v.regs.state = .checkValidAndTag)
      (hu : v.regs.isUncache = false) (hp : needsProbe v.regs v.cur = false)
      (ho : v.regs.opcode = .pgdrop) :
      Step g v i
        ⟨{ tick v.regs i with
            rspData :=
              flagLine (hit v.regs v.cur && (v.cur.dirty || v.regs.probeDirty)),
            state := .idle, rspValid := true },
          if hit v.regs v.cur then v.setCur (clearEntry v.cur) else v.arr⟩
  | snoopDone (hs : v.regs.state = .checkValidAndTag)
      (hu : v.regs.isUncache = false) (hp : needsProbe v.regs v.cur = false)
      (ho : v.regs.opcode = .snoopInvl)
      (hd : v.regs.snpWbinv = false ∨ (v.cur.dirty || v.regs.probeDirty) = false ∨
        hit v.regs v.cur = false) :
      Step g v i
        ⟨{ tick v.regs i with state := .idle, snoopDone := true },
          if hit v.regs v.cur then v.setCur (clearEntry v.cur) else v.arr⟩
  | wb (hs : v.regs.state = .checkValidAndTag)
      (hu : v.regs.isUncache = false) (hp : needsProbe v.regs v.cur = false)
      (ho : v.regs.opcode = .wb) :
      Step g v i
        ⟨{ tick v.regs i with
            memReqStoreData := v.regs.storeData, addr := v.regs.saveaddr,
            memOpcode := .sw, storeMask := Mask.full, memReq := true,
            state := .uncacheStore },
          if hit v.regs v.cur then
            v.setCur { v.cur with valid := false, pres := Pres.zero }
          else v.arr⟩
  | hitLw (hs : v.regs.state = .checkValidAndTag)
      (hu : v.regs.isUncache = false) (hp : needsProbe v.regs v.cur = false)
      (ho : v.regs.opcode = .lw) (hh : hit v.regs v.cur = true) :
      Step g v i
        ⟨{ tick v.regs i with
            rspData := newest v.regs v.cur, state := .idle, rspValid := true },
          v.setCur
            { v.cur with
              dirty := v.cur.dirty || v.regs.probeDirty
              d0 := newest v.regs v.cur
              pres := if v.regs.fromD then ⟨true, v.regs.reqColour⟩ else v.cur.pres }⟩
  | hitSw (hs : v.regs.state = .checkValidAndTag)
      (hu : v.regs.isUncache = false) (hp : needsProbe v.regs v.cur = false)
      (ho : v.regs.opcode = .sw) (hh : hit v.regs v.cur = true) :
      Step g v i
        ⟨{ tick v.regs i with state := .waitStoreIdle },
          v.setCur
            { v.cur with
              dirty := true
              d0 := v.regs.storeData
              pres := if v.regs.fromD then Pres.zero else v.cur.pres }⟩
  | hitOther (hs : v.regs.state = .checkValidAndTag)
      (hu : v.regs.isUncache = false) (hp : needsProbe v.regs v.cur = false)
      (ho : fillOp v.regs.opcode = true) (hl : v.regs.opcode ≠ .lw)
      (hw : v.regs.opcode ≠ .sw) (hh : hit v.regs v.cur = true) :
      Step g v i ⟨tick v.regs i, v.arr⟩
  | evict (hs : v.regs.state = .checkValidAndTag)
      (hu : v.regs.isUncache = false) (hp : needsProbe v.regs v.cur = false)
      (ho : fillOp v.regs.opcode = true) (hh : hit v.regs v.cur = false)
      (hd : (needWb v.cur || v.regs.probeDirty) = true) :
      Step g v i
        ⟨{ tick v.regs i with
            memReqStoreData := newest v.regs v.cur,
            addr := g.l2Line v.cur.tag v.regs.idx, memOpcode := .sw,
            storeMask := Mask.full, memReq := true, probeDirty := false,
            state := .dirtyStore }, v.arr⟩
  | reload (hs : v.regs.state = .checkValidAndTag)
      (hu : v.regs.isUncache = false) (hp : needsProbe v.regs v.cur = false)
      (ho : fillOp v.regs.opcode = true) (hh : hit v.regs v.cur = false)
      (hd : (needWb v.cur || v.regs.probeDirty) = false) :
      Step g v i
        ⟨{ tick v.regs i with
            memOpcode := .lw, storeMask := Mask.full, memReq := true,
            state := .cleanReload }, v.arr⟩
  | memWait (hs : memWaiting v.regs.state = true) (hr : i.memRspValid = false) :
      Step g v i
        ⟨{ tick v.regs i with memReq := !i.memReqAck && v.regs.memReq }, v.arr⟩
  | dirtyStoreDone (hs : v.regs.state = .dirtyStore) (hr : i.memRspValid = true) :
      Step g v i
        ⟨{ tick v.regs i with
            memReq := false, addr := v.regs.saveaddr, memOpcode := .lw,
            storeMask := Mask.full, state := .storeTurnaround }, v.arr⟩
  | storeTurnaround (hs : v.regs.state = .storeTurnaround) :
      Step g v i ⟨{ tick v.regs i with state := .cleanReload, memReq := true }, v.arr⟩
  | cleanReloadDone (hs : v.regs.state = .cleanReload) (hr : i.memRspValid = true) :
      Step g v i
        ⟨{ tick v.regs i with memReq := false, state := .waitCleanReload },
          v.setCur ⟨true, false, v.regs.tag, i.memRspLoadData, Pres.zero⟩⟩
  | waitCleanReload (hs : v.regs.state = .waitCleanReload) :
      Step g v i ⟨{ tick v.regs i with state := .waitForRam }, v.arr⟩
  | waitStoreIdle (hs : v.regs.state = .waitStoreIdle) :
      Step g v i ⟨{ tick v.regs i with state := .idle }, v.arr⟩
  | flushWait (hs : v.regs.state = .flushWait) :
      Step g v i ⟨{ tick v.regs i with state := .flushTriage }, v.arr⟩
  | flushTriageWb (hs : v.regs.state = .flushTriage) (hd : needWb v.cur = true) :
      Step g v i
        ⟨{ tick v.regs i with
            memReqStoreData := v.cur.d0, addr := g.l2Line v.cur.tag v.regs.idx,
            memOpcode := .sw, memReq := true, state := .flushStore },
          v.setCur (clearEntry v.cur)⟩
  | flushTriageNext (hs : v.regs.state = .flushTriage) (hd : needWb v.cur = false)
      (hx : v.regs.idx ≠ g.l2Lines - 1) :
      Step g v i
        ⟨{ tick v.regs i with state := .flushWait, idx := g.l2Succ v.regs.idx },
          v.setCur (clearEntry v.cur)⟩
  | flushTriageLast (hs : v.regs.state = .flushTriage) (hd : needWb v.cur = false)
      (hx : v.regs.idx = g.l2Lines - 1) :
      Step g v i
        ⟨{ tick v.regs i with
            state := .idle, flushComplete := true, flushReq := false,
            idx := g.l2Succ v.regs.idx },
          v.setCur (clearEntry v.cur)⟩
  | flushStoreNext (hs : v.regs.state = .flushStore) (hr : i.memRspValid = true)
      (hx : v.regs.idx ≠ g.l2Lines - 1) :
      Step g v i
        ⟨{ tick v.regs i with
            memReq := false, state := .flushWait, idx := g.l2Succ v.regs.idx }, v.arr⟩
  | flushStoreLast (hs : v.regs.state = .flushStore) (hr : i.memRspValid = true)
      (hx : v.regs.idx = g.l2Lines - 1) :
      Step g v i
        ⟨{ tick v.regs i with
            memReq := false, state := .idle, flushComplete := true, flushReq := false,
            idx := g.l2Succ v.regs.idx }, v.arr⟩
  | uncacheStoreDone (hs : v.regs.state = .uncacheStore) (hr : i.memRspValid = true) :
      Step g v i
        ⟨{ tick v.regs i with memReq := false, state := .idle, rspValid := true }, v.arr⟩
  | uncacheLoadDone (hs : v.regs.state = .uncacheLoad) (hr : i.memRspValid = true) :
      Step g v i
        ⟨{ tick v.regs i with
            memReq := false, state := .idle, rspValid := true,
            rspData := i.memRspLoadData, rspBad := i.memRspBad }, v.arr⟩
  | uncacheWbDrainDone (hs : v.regs.state = .uncacheWbDrain) (hr : i.memRspValid = true) :
      Step g v i
        ⟨{ tick v.regs i with memReq := false, state := .uncacheWbTurnaround }, v.arr⟩
  | turnaroundInvl (hs : v.regs.state = .uncacheWbTurnaround)
      (ho : v.regs.opcode = .invl) :
      Step g v i ⟨{ tick v.regs i with state := .idle, rspValid := true }, v.arr⟩
  | turnaroundSnoop (hs : v.regs.state = .uncacheWbTurnaround)
      (ho : v.regs.opcode = .snoopInvl) :
      Step g v i ⟨{ tick v.regs i with state := .idle, snoopDone := true }, v.arr⟩
  | turnaroundIssue (hs : v.regs.state = .uncacheWbTurnaround)
      (hi : v.regs.opcode ≠ .invl) (hn : v.regs.opcode ≠ .snoopInvl) :
      Step g v i
        ⟨{ tick v.regs i with
            addr := v.regs.saveaddr, memOpcode := v.regs.opcode,
            storeMask := v.regs.uncacheMask, memReqStoreData := v.regs.storeData,
            memReq := true, state := uncachedState v.regs }, v.arr⟩

/-! ## Every clock edge is one of these steps -/

section StepNext

variable {g : Geometry} {v : L2View} {i : Input}

theorem Step.of_eq {a b : L2View} (h : Step g v i a) (hr : a.regs = b.regs)
    (ha : a.arr = b.arr) : Step g v i b := by
  cases a
  cases b
  cases hr
  cases ha
  exact h

/-- A step that writes nothing: only the registers have to be compared. -/
theorem Step.quiet {r : Regs} {c : Comb} (h : Step g v i ⟨r, v.arr⟩)
    (hr : r = { c.n with idx := c.tIdx }) (hq : c.Quiet) : Step g v i (v.after c) :=
  h.of_eq hr (by rw [after, hq.write, Function.update_eq_self])

theorem step_init (hs : v.regs.state = .init) :
    Step g v i (v.after (clearPres (initArm g v.regs (combDefault v.regs i)))) := by
  unfold initArm
  by_cases hx : v.regs.idx = g.l2Lines - 1
  · rw [if_pos hx]
    exact (Step.initLast hs hx).of_eq rfl rfl
  · rw [if_neg hx]
    exact (Step.init hs hx).of_eq rfl rfl

theorem step_idle (hs : v.regs.state = .idle) :
    Step g v i (v.after (clearPres (idle g i (combDefault v.regs i)))) := by
  unfold idle
  by_cases hf : (tick v.regs i).flushReq = true
  · by_cases hk : (tick v.regs i).flushSkip = true
    · rw [if_pos (by simpa [tick] using ⟨hf, hk⟩)]
      exact (Step.idleFlushSkip hs hf hk).quiet rfl ⟨rfl, rfl, rfl, rfl, rfl⟩
    · rw [if_neg (by simpa [tick] using fun _ => hk), if_pos (by simpa [tick] using hf)]
      exact (Step.idleFlush hs hf (by simpa using hk)).quiet rfl ⟨rfl, rfl, rfl, rfl, rfl⟩
  · rw [if_neg (by simpa [tick] using fun h => absurd h hf),
      if_neg (by simpa [tick] using hf)]
    have hf' : (tick v.regs i).flushReq = false := by simpa using hf
    by_cases hn : i.snoopReqValid = true
    · rw [if_pos hn]
      exact (Step.idleSnoop hs hf' hn).quiet rfl ⟨rfl, rfl, rfl, rfl, rfl⟩
    · rw [if_neg hn]
      have hn' : i.snoopReqValid = false := by simpa using hn
      by_cases hv : i.reqValid = true
      · rw [if_pos hv]
        by_cases hc : l2Cacheable i = true
        · rw [if_pos hc]
          exact (Step.idleReq hs hf' hn' hv hc).quiet rfl ⟨rfl, rfl, rfl, rfl, rfl⟩
        · rw [if_neg hc]
          exact (Step.idleUncached hs hf' hn' hv (by simpa using hc)).quiet rfl
            ⟨rfl, rfl, rfl, rfl, rfl⟩
      · rw [if_neg hv]
        exact (Step.idle hs hf' hn' (by simpa using hv)).quiet rfl
          ⟨rfl, rfl, rfl, rfl, rfl⟩

theorem step_sendProbe (hs : v.regs.state = .checkValidAndTag)
    (hp : needsProbe v.regs v.cur = true) :
    Step g v i
      (v.after (clearPres (sendProbe g v.regs v.cur i (combDefault v.regs i)))) := by
  unfold sendProbe
  by_cases ha : (v.regs.probeReq && i.probeAck) = true
  · rw [if_pos ha]
    have ha' := (Bool.and_eq_true _ _).mp ha
    exact (Step.probeAcked hs hp ha'.1 ha'.2).quiet rfl ⟨rfl, rfl, rfl, rfl, rfl⟩
  · rw [if_neg ha]
    exact (Step.probeWait hs hp (by simpa using ha)).quiet rfl ⟨rfl, rfl, rfl, rfl, rfl⟩

theorem step_checkUncached (hs : v.regs.state = .checkValidAndTag)
    (hu : v.regs.isUncache = true) :
    Step g v i
      (v.after (clearPres (checkUncached g v.regs v.cur (combDefault v.regs i)))) := by
  unfold checkUncached
  by_cases hh : hit v.regs v.cur = true
  · rw [if_pos hh]
    by_cases hd : v.cur.dirty = true
    · rw [if_pos hd]
      exact (Step.uncachedWriteBack hs hu hh hd).of_eq rfl rfl
    · rw [if_neg hd]
      exact (Step.uncachedHit hs hu hh (by simpa using hd)).of_eq rfl rfl
  · rw [if_neg hh]
    exact (Step.uncachedMiss hs hu (by simpa using hh)).quiet rfl ⟨rfl, rfl, rfl, rfl, rfl⟩

section Cached

variable (hs : v.regs.state = .checkValidAndTag) (hu : v.regs.isUncache = false)
  (hp : needsProbe v.regs v.cur = false)

include hs hu hp

theorem step_checkInvl (ho : v.regs.opcode = .invl) :
    Step g v i (v.after (clearPres (checkInvl g v.regs v.cur (combDefault v.regs i)))) := by
  unfold checkInvl
  by_cases hh : hit v.regs v.cur = true
  · rw [if_pos hh]
    by_cases hd : (v.cur.dirty || v.regs.probeDirty) = true
    · rw [if_pos hd]
      exact (Step.dropWriteBack hs hu hp (.inl ho) hh hd).of_eq rfl rfl
    · rw [if_neg hd]
      have hd' : (v.cur.dirty || v.regs.probeDirty) = false := by simpa using hd
      refine (Step.invlDone hs hu hp ho (.inl hd')).of_eq rfl ?_
      rw [if_pos hh]
      rfl
  · rw [if_neg hh]
    have hh' : hit v.regs v.cur = false := by simpa using hh
    have h := Step.invlDone hs hu hp ho (g := g) (i := i) (.inr hh')
    rw [if_neg hh] at h
    exact h.quiet rfl ⟨rfl, rfl, rfl, rfl, rfl⟩

theorem step_checkPgdrop (ho : v.regs.opcode = .pgdrop) :
    Step g v i (v.after (clearPres (checkPgdrop v.regs v.cur (combDefault v.regs i)))) := by
  have h := Step.pgdrop hs hu hp ho (g := g) (i := i)
  unfold checkPgdrop
  by_cases hh : hit v.regs v.cur = true
  · rw [if_pos hh] at h ⊢
    exact h.of_eq rfl rfl
  · rw [if_neg hh] at h ⊢
    exact h.quiet rfl ⟨rfl, rfl, rfl, rfl, rfl⟩

theorem step_snoopDone (ho : v.regs.opcode = .snoopInvl)
    (hd : v.regs.snpWbinv = false ∨ (v.cur.dirty || v.regs.probeDirty) = false ∨
      hit v.regs v.cur = false) {c : Comb}
    (hc : c = if hit v.regs v.cur then dropLine (combDefault v.regs i)
      else combDefault v.regs i) :
    Step g v i
      (v.after (clearPres { c with n := { c.n with state := .idle, snoopDone := true } })) := by
  have h := Step.snoopDone hs hu hp ho (g := g) (i := i) hd
  subst hc
  by_cases hh : hit v.regs v.cur = true
  · rw [if_pos hh] at h ⊢
    exact h.of_eq rfl rfl
  · rw [if_neg hh] at h ⊢
    exact h.quiet rfl ⟨rfl, rfl, rfl, rfl, rfl⟩

theorem step_checkWb (ho : v.regs.opcode = .wb) :
    Step g v i (v.after (clearPres (checkWb v.regs v.cur (combDefault v.regs i)))) := by
  have h := Step.wb hs hu hp ho (g := g) (i := i)
  unfold checkWb
  by_cases hh : hit v.regs v.cur = true
  · rw [if_pos hh] at h ⊢
    exact h.of_eq rfl rfl
  · rw [if_neg hh] at h ⊢
    exact h.quiet rfl ⟨rfl, rfl, rfl, rfl, rfl⟩

theorem step_checkHit (ho : fillOp v.regs.opcode = true) (hh : hit v.regs v.cur = true) :
    Step g v i (v.after (clearPres (checkHit v.regs v.cur (combDefault v.regs i)))) := by
  unfold checkHit
  by_cases hl : v.regs.opcode = .lw
  · rw [if_pos hl]
    refine (Step.hitLw hs hu hp hl hh).of_eq ?_ ?_
    · cases v.regs.fromD <;> cases v.regs.probeDirty <;> rfl
    · unfold newest
      cases v.regs.fromD <;> cases v.regs.probeDirty <;> simp <;> rfl
  · rw [if_neg hl]
    by_cases hw : v.regs.opcode = .sw
    · rw [if_pos hw]
      refine (Step.hitSw hs hu hp hw hh).of_eq ?_ ?_
      · cases v.regs.fromD <;> rfl
      · cases v.regs.fromD <;> rfl
    · rw [if_neg hw]
      exact (Step.hitOther hs hu hp ho hl hw hh).quiet rfl ⟨rfl, rfl, rfl, rfl, rfl⟩

theorem step_checkMiss (ho : fillOp v.regs.opcode = true) (hh : hit v.regs v.cur = false) :
    Step g v i (v.after (clearPres (checkMiss g v.regs v.cur (combDefault v.regs i)))) := by
  unfold checkMiss
  by_cases hd : (needWb v.cur || v.regs.probeDirty) = true
  · rw [if_pos hd]
    exact (Step.evict hs hu hp ho hh hd).quiet rfl ⟨rfl, rfl, rfl, rfl, rfl⟩
  · rw [if_neg hd]
    exact (Step.reload hs hu hp ho hh (by simpa using hd)).quiet rfl ⟨rfl, rfl, rfl, rfl, rfl⟩

end Cached

theorem step_checkSnoop (hs : v.regs.state = .checkValidAndTag)
    (hu : v.regs.isUncache = false) (ho : v.regs.opcode = .snoopInvl)
    (ha : v.regs.probed = false → isAlias v.regs v.cur = false) :
    Step g v i
      (v.after
        (clearPres
          (if v.regs.snpWbinv then checkSnoopWbinv g v.regs v.cur i (combDefault v.regs i)
          else checkSnoopDrop g v.regs v.cur i (combDefault v.regs i)))) := by
  unfold checkSnoopWbinv checkSnoopDrop
  by_cases hp : (hit v.regs v.cur && v.cur.pres.pd && !v.regs.probed) = true
  · simp only [hp, if_true, ite_self]
    exact step_sendProbe hs (by simp_all [needsProbe])
  rw [if_neg hp, if_neg hp]
  have hp' : needsProbe v.regs v.cur = false := by
    cases hb : v.regs.probed <;> simp_all [needsProbe, fillOp]
  by_cases hw : v.regs.snpWbinv = true
  · rw [if_pos hw]
    by_cases hh : hit v.regs v.cur = true
    · rw [if_pos hh]
      by_cases hd : (v.cur.dirty || v.regs.probeDirty) = true
      · rw [if_pos hd]
        exact (Step.dropWriteBack hs hu hp' (.inr ⟨ho, hw⟩) hh hd).of_eq rfl rfl
      · rw [if_neg hd]
        refine step_snoopDone hs hu hp' ho (.inr (.inl (by simpa using hd))) ?_
        rw [if_pos hh]
    · rw [if_neg hh]
      refine step_snoopDone hs hu hp' ho (.inr (.inr (by simpa using hh))) ?_
      rw [if_neg hh]
  · rw [if_neg hw]
    exact step_snoopDone hs hu hp' ho (.inl (by simpa using hw)) rfl

theorem step_check (hs : v.regs.state = .checkValidAndTag) :
    Step g v i
      (v.after (clearPres (checkValidAndTag g v.regs v.cur i (combDefault v.regs i)))) := by
  unfold checkValidAndTag
  by_cases hu : v.regs.isUncache = true
  · rw [if_pos hu]
    exact step_checkUncached hs hu
  rw [if_neg hu]
  have hu' : v.regs.isUncache = false := by simpa using hu
  by_cases ha : (isAlias v.regs v.cur && !v.regs.probed) = true
  · rw [if_pos ha]
    exact step_sendProbe hs (by simp_all [needsProbe])
  rw [if_neg ha]
  have ha' : v.regs.probed = false → isAlias v.regs v.cur = false := by
    cases h : isAlias v.regs v.cur <;> simp_all
  by_cases h1 : v.regs.opcode = .invl
  · rw [if_pos h1]
    exact step_checkInvl hs hu' (by simp_all [needsProbe, fillOp]) h1
  rw [if_neg h1]
  by_cases h2 : v.regs.opcode = .pgdrop
  · rw [if_pos h2]
    exact step_checkPgdrop hs hu' (by simp_all [needsProbe, fillOp]) h2
  rw [if_neg h2]
  by_cases h3 : v.regs.opcode = .snoopInvl
  · rw [if_pos h3]
    exact step_checkSnoop hs hu' h3 ha'
  rw [if_neg h3]
  by_cases h4 : v.regs.opcode = .wb
  · rw [if_pos h4]
    exact step_checkWb hs hu' (by simp_all [needsProbe, fillOp]) h4
  rw [if_neg h4]
  have ho : fillOp v.regs.opcode = true := by
    cases h : v.regs.opcode <;> simp_all [fillOp]
  by_cases hh : hit v.regs v.cur = true
  · rw [if_pos hh]
    exact step_checkHit hs hu' (by simp_all [needsProbe]) ho hh
  rw [if_neg hh]
  by_cases hp : (v.cur.valid && v.cur.pres.pd && !v.regs.probed) = true
  · rw [if_pos hp]
    exact step_sendProbe hs (by simp_all [needsProbe])
  · rw [if_neg hp]
    refine step_checkMiss hs hu' ?_ ho (by simpa using hh)
    cases hb : v.regs.probed <;> simp_all [needsProbe]

/-- A memory-side wait state is left by its reply only. -/
theorem step_memWait {done : Comb → Comb} (hw : memWaiting v.regs.state = true)
    (hd : i.memRspValid = true →
      Step g v i
        (v.after
          (clearPres
            (done { combDefault v.regs i with
                n := { (combDefault v.regs i).n with memReq := false } })))) :
    Step g v i (v.after (clearPres (memWait i done (combDefault v.regs i)))) := by
  unfold memWait
  by_cases hr : i.memRspValid = true
  · rw [if_pos hr]
    cases hk : i.memReqAck <;> exact hd hr
  · rw [if_neg hr]
    have h := Step.memWait hw (g := g) (i := i) (by simpa using hr)
    cases hk : i.memReqAck <;> rw [hk] at h <;> exact h.quiet rfl ⟨rfl, rfl, rfl, rfl, rfl⟩

/-- Every clock edge of the view is one of the listed steps. -/
theorem step_next (g : Geometry) (v : L2View) (i : Input) : Step g v i (v.next g i) := by
  unfold next comb combState
  cases hs : v.regs.state with
  | init => exact step_init hs
  | idle => exact step_idle hs
  | waitForRam => exact (Step.waitForRam hs).quiet rfl ⟨rfl, rfl, rfl, rfl, rfl⟩
  | checkValidAndTag => exact step_check hs
  | dirtyStore =>
      exact step_memWait (by rw [hs]; rfl) fun hr =>
        (Step.dirtyStoreDone hs hr).quiet rfl ⟨rfl, rfl, rfl, rfl, rfl⟩
  | storeTurnaround => exact (Step.storeTurnaround hs).quiet rfl ⟨rfl, rfl, rfl, rfl, rfl⟩
  | cleanReload =>
      exact step_memWait (by rw [hs]; rfl) fun hr => (Step.cleanReloadDone hs hr).of_eq rfl rfl
  | waitCleanReload => exact (Step.waitCleanReload hs).quiet rfl ⟨rfl, rfl, rfl, rfl, rfl⟩
  | waitStoreIdle => exact (Step.waitStoreIdle hs).quiet rfl ⟨rfl, rfl, rfl, rfl, rfl⟩
  | flushWait => exact Step.flushWait hs
  | flushTriage =>
      change Step g v i
        ⟨{ (clearPres (flushTriage g v.regs v.cur (combDefault v.regs i))).n with
            idx := (clearPres (flushTriage g v.regs v.cur (combDefault v.regs i))).tIdx },
          v.setCur (clearEntry v.cur)⟩
      unfold flushTriage flushAdvance
      by_cases hd : needWb v.cur = true
      · rw [if_pos hd]
        exact (Step.flushTriageWb hs hd).of_eq rfl rfl
      rw [if_neg hd]
      by_cases hx : v.regs.idx = g.l2Lines - 1
      · rw [if_pos hx]
        exact (Step.flushTriageLast hs (by simpa using hd) hx).of_eq rfl rfl
      · rw [if_neg hx]
        exact (Step.flushTriageNext hs (by simpa using hd) hx).of_eq rfl rfl
  | flushStore =>
      refine step_memWait (by rw [hs]; rfl) fun hr => ?_
      unfold flushAdvance
      by_cases hx : v.regs.idx = g.l2Lines - 1
      · rw [if_pos hx]
        exact (Step.flushStoreLast hs hr hx).quiet rfl ⟨rfl, rfl, rfl, rfl, rfl⟩
      · rw [if_neg hx]
        exact (Step.flushStoreNext hs hr hx).quiet rfl ⟨rfl, rfl, rfl, rfl, rfl⟩
  | uncacheStore =>
      exact step_memWait (by rw [hs]; rfl) fun hr =>
        (Step.uncacheStoreDone hs hr).quiet rfl ⟨rfl, rfl, rfl, rfl, rfl⟩
  | uncacheLoad =>
      exact step_memWait (by rw [hs]; rfl) fun hr =>
        (Step.uncacheLoadDone hs hr).quiet rfl ⟨rfl, rfl, rfl, rfl, rfl⟩
  | uncacheWbDrain =>
      exact step_memWait (by rw [hs]; rfl) fun hr =>
        (Step.uncacheWbDrainDone hs hr).quiet rfl ⟨rfl, rfl, rfl, rfl, rfl⟩
  | uncacheWbTurnaround =>
      unfold uncacheWbTurnaround
      by_cases h1 : v.regs.opcode = .invl
      · rw [if_pos h1]
        exact (Step.turnaroundInvl hs h1).quiet rfl ⟨rfl, rfl, rfl, rfl, rfl⟩
      rw [if_neg h1]
      by_cases h2 : v.regs.opcode = .snoopInvl
      · rw [if_pos h2]
        exact (Step.turnaroundSnoop hs h2).quiet rfl ⟨rfl, rfl, rfl, rfl, rfl⟩
      · rw [if_neg h2]
        exact (Step.turnaroundIssue hs h1 h2).quiet rfl ⟨rfl, rfl, rfl, rfl, rfl⟩

end StepNext

/-! ## Which state follows which -/

section Successors

variable {g : Geometry} {v v' : L2View} {i : Input}

@[simp] theorem tick_state (r : Regs) (i : Input) : (tick r i).state = r.state := rfl
@[simp] theorem tick_idx (r : Regs) (i : Input) : (tick r i).idx = r.idx := rfl

/-- The successors of a state. -/
def follows : State → State → Bool
  | .init, t => t = .init ∨ t = .idle
  | .idle, t => t = .idle ∨ t = .flushWait ∨ t = .waitForRam
  | .waitForRam, t => t = .checkValidAndTag
  | .checkValidAndTag, t =>
      t = .checkValidAndTag ∨ t = .idle ∨ t = .uncacheWbDrain ∨ t = .uncacheStore ∨
        t = .uncacheLoad ∨ t = .waitStoreIdle ∨ t = .dirtyStore ∨ t = .cleanReload
  | .dirtyStore, t => t = .dirtyStore ∨ t = .storeTurnaround
  | .storeTurnaround, t => t = .cleanReload
  | .cleanReload, t => t = .cleanReload ∨ t = .waitCleanReload
  | .waitCleanReload, t => t = .waitForRam
  | .waitStoreIdle, t => t = .idle
  | .flushWait, t => t = .flushTriage
  | .flushTriage, t => t = .flushStore ∨ t = .flushWait ∨ t = .idle
  | .flushStore, t => t = .flushStore ∨ t = .flushWait ∨ t = .idle
  | .uncacheStore, t => t = .uncacheStore ∨ t = .idle
  | .uncacheLoad, t => t = .uncacheLoad ∨ t = .idle
  | .uncacheWbDrain, t => t = .uncacheWbDrain ∨ t = .uncacheWbTurnaround
  | .uncacheWbTurnaround, t => t = .idle ∨ t = .uncacheStore ∨ t = .uncacheLoad

theorem uncachedState_cases (r : Regs) :
    uncachedState r = .uncacheStore ∨ uncachedState r = .uncacheLoad := by
  unfold uncachedState
  split <;> simp

theorem Step.follows (h : Step g v i v') : follows v.regs.state v'.regs.state = true := by
  cases h
  case memWait hs hr =>
    cases h : v.regs.state <;> simp_all [memWaiting, L2View.follows]
  case uncachedHit | uncachedMiss | turnaroundIssue =>
    rcases uncachedState_cases v.regs with h | h <;> simp_all [L2View.follows]
  all_goals simp_all [L2View.follows]

/-- A step that leads to a state about to read leaves the array alone, except that the
flush walk clears the index it leaves. -/
theorem Step.arr_of_read (h : Step g v i v')
    (hr : v'.regs.state = .waitForRam ∨ v'.regs.state = .checkValidAndTag ∨
      v'.regs.state = .flushWait) (ht : v.regs.state ≠ .flushTriage) : v'.arr = v.arr := by
  cases h
  case uncachedHit | uncachedMiss | turnaroundIssue =>
    rcases uncachedState_cases v.regs with h | h <;> simp_all
  all_goals simp_all

/-- The index is held while `CHECK_VALID_AND_TAG` and the flush walk wait for a read. -/
theorem Step.idx_of_read (h : Step g v i v')
    (hr : v'.regs.state = .checkValidAndTag ∨ v'.regs.state = .flushTriage) :
    v'.regs.idx = v.regs.idx := by
  cases h
  case uncachedHit | uncachedMiss | turnaroundIssue => rfl
  all_goals simp_all

theorem follows_to_check {t : State} (h : L2View.follows t .checkValidAndTag = true) :
    t = .waitForRam ∨ t = .checkValidAndTag := by
  cases t <;> simp_all [L2View.follows]

theorem follows_to_flushTriage {t : State} (h : L2View.follows t .flushTriage = true) :
    t = .flushWait := by
  cases t <;> simp_all [L2View.follows]

end Successors

end L2View

namespace L2

variable {g : Geometry} {s : L2} {i : Input}

/-! ## The view commutes with the clock -/

/-- Outside `CHECK_VALID_AND_TAG` and `FLUSH_TRIAGE` the RAM outputs are not looked
at. -/
theorem comb_congr {r : Regs} (w w' : L2Entry) (i : Input)
    (hc : r.state ≠ .checkValidAndTag) (ht : r.state ≠ .flushTriage) :
    comb g r w i = comb g r w' i := by
  unfold comb combState
  cases h : r.state <;> first | rfl | exact absurd h hc | exact absurd h ht

theorem view_arr (ht : s.regs.state ≠ .flushTriage) : s.view.arr = s.entry := by
  simp [view, ht]

/-- The cache and its view compute the same combinational result. -/
theorem Settled.comb_view (h : s.Settled) :
    comb g s.regs s.wires i = comb g s.view.regs (s.view.arr s.view.regs.idx) i := by
  by_cases hc : s.regs.state = .checkValidAndTag
  · have ht : s.regs.state ≠ .flushTriage := by simp [hc]
    rw [view_arr ht, h.check hc]
    rfl
  by_cases ht : s.regs.state = .flushTriage
  · simp [view, ht]
  · exact comb_congr _ _ i hc ht

theorem Settled.regs_next (h : s.Settled) : (s.next g i).regs = (s.view.next g i).regs := by
  have hc : (s.next g i).regs =
      { (comb g s.regs s.wires i).n with idx := (comb g s.regs s.wires i).tIdx } := rfl
  rw [hc, h.comb_view, L2View.next]
  split <;> rfl

theorem Settled.entry_next (h : s.Settled) (hw : s.regs.state ≠ .flushWait)
    (ht : s.regs.state ≠ .flushTriage) : (s.next g i).entry = (s.view.next g i).arr := by
  rw [L2.entry_next, h.comb_view, L2View.next]
  have hv : s.view.arr = s.entry := view_arr ht
  rw [← hv]
  cases hs : s.regs.state <;> simp_all [L2View.after, view]

theorem comb_flushTriage_quiet {r : Regs} (w : L2Entry) (i : Input)
    (h : r.state = .flushTriage) : (comb g r w i).Quiet := by
  simp only [comb, combState, h, flushTriage, flushAdvance]
  split_ifs <;> exact ⟨rfl, rfl, rfl, rfl, rfl⟩

theorem entry_next_flushTriage (ht : s.regs.state = .flushTriage) :
    (s.next g i).entry = s.entry := by
  rw [L2.entry_next]
  have hq : (comb g s.regs s.wires i).Quiet := comb_flushTriage_quiet _ i ht
  simp only [hq.write, Function.update_eq_self]

theorem entry_next_flushWait (hw : s.regs.state = .flushWait) :
    (s.next g i).entry =
      Function.update s.entry s.regs.idx (clearEntry (s.entry s.regs.idx)) := by
  have hc : comb g s.regs s.wires i =
      clearPres { dropLine (combDefault s.regs i) with
        n := { (combDefault s.regs i).n with state := .flushTriage } } := by
    rw [comb, combState, hw]
  rw [L2.entry_next, hc]
  rfl

/-- Every clock edge keeps the turnaround cycles. -/
theorem settled_next (h : s.Settled) : (s.next g i).Settled := by
  have hstep := L2View.step_next g s.view i
  have hregs := h.regs_next (g := g) (i := i)
  have hfol : L2View.follows s.regs.state (s.view.next g i).regs.state = true := hstep.follows
  constructor
  · intro hr
    rw [hregs] at hr
    apply still_next
    by_cases ht : s.regs.state = .flushTriage
    · rw [entry_next_flushTriage ht]
    have hw : s.regs.state ≠ .flushWait := by
      intro hw
      rw [hw] at hfol
      simp only [L2View.follows, decide_eq_true_eq] at hfol
      simp [hfol] at hr
    rw [h.entry_next hw ht, hstep.arr_of_read hr ht, view_arr ht]
  · intro hc
    rw [hregs] at hc
    rw [hc] at hfol
    have hpre := L2View.follows_to_check hfol
    have hstill : s.Still := h.still (hpre.imp_right .inl)
    have hw : s.regs.state ≠ .flushWait := by rcases hpre with h | h <;> simp [h]
    have ht : s.regs.state ≠ .flushTriage := by rcases hpre with h | h <;> simp [h]
    rw [hstill.wires_next, h.entry_next hw ht, hstep.arr_of_read (by simp [hc]) ht,
      view_arr ht, hregs, hstep.idx_of_read (.inl hc)]
    rfl
  · intro hc
    rw [hregs] at hc
    rw [hc] at hfol
    have hw := L2View.follows_to_flushTriage hfol
    have hstill : s.Still := h.still (by simp [hw])
    have hidx : (s.next g i).regs.idx = s.regs.idx := by
      rw [hregs, hstep.idx_of_read (.inr hc)]
      rfl
    rw [hstill.wires_next, entry_next_flushWait hw, hidx, Function.update_self]

/-- The view of the next state is the next state of the view. -/
theorem Settled.view_next (h : s.Settled) : (s.next g i).view = s.view.next g i := by
  have hstep := L2View.step_next g s.view i
  have hregs := h.regs_next (g := g) (i := i)
  have hfol : L2View.follows s.regs.state (s.view.next g i).regs.state = true := hstep.follows
  have harr : (s.next g i).view.arr = (s.view.next g i).arr := by
    by_cases hw : s.regs.state = .flushWait
    · have hc : (s.next g i).regs.state = .flushTriage := by
        rw [hw] at hfol
        rw [hregs]
        simpa [L2View.follows] using hfol
      have hidx : (s.next g i).regs.idx = s.regs.idx := by
        rw [hregs, hstep.idx_of_read (.inr (hregs ▸ hc))]
        rfl
      have hstill : s.Still := h.still (by simp [hw])
      have hv : (s.view.next g i).arr = s.entry := by
        simp [L2View.next, view, hw]
      rw [hv, view, if_pos hc, hidx, hstill.wires_next, entry_next_flushWait hw]
      simp
    · have hc : (s.next g i).regs.state ≠ .flushTriage := by
        intro hc
        rw [hregs] at hc
        rw [hc] at hfol
        exact hw (L2View.follows_to_flushTriage hfol)
      rw [view_arr hc]
      by_cases ht : s.regs.state = .flushTriage
      · rw [entry_next_flushTriage ht]
        simp only [L2View.next, view, ht, if_true, Function.update_self,
          Function.update_idem]
        rw [← h.triage ht, Function.update_eq_self]
      · exact h.entry_next hw ht
  cases hv : (s.view.next g i)
  rw [hv] at hregs harr
  simp only at hregs harr
  rw [← hregs, ← harr]
  rfl

end L2

end R9999
