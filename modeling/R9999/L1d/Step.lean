import R9999.L1d.Pipe

/-!
# What a clock edge of the L1D can do

The part of the L1D that the L2 sees: the state, the request registers, the probe
registers and the latched flush requests (`Proto`), with the array.  `Step` lists what one
clock edge can do to them; the requests in the two port pipes appear only through the
request that is being served.  `step_next` says that every clock edge of an L1D whose
pipes are in order (`Pipe`) is one of the listed steps.
-/

namespace R9999

namespace L1d

/-- The registers of the L1D that matter to the L2. -/
structure Proto where
  state : State
  cacheIdx : Nat
  cacheTag : Nat
  gotReq : Bool
  lastWr : Bool
  isRetry : Bool
  didReload : Bool
  req : CoreReq
  reqIdx : Nat
  gotReq2 : Bool
  req2 : CoreReq
  cacheIdx2 : Nat
  memReqValid : Bool
  memReq : MemReq
  inhibitWrite : Bool
  reloadIssue : Bool
  lockCache : Bool
  uncacheWbDirty : Bool
  chopWait : Bool
  clIsDma : Bool
  pend : FlushPend
  pgOff : Nat
  flushComplete : Bool
  dmaInvalAck : Bool
  prbSeen : Bool
  prbAck : Bool
  prbDirty : Bool
  prbData : Line
  prbRet : State
  prbSave : Nat
  prbTag : Nat

/-- The projection of the registers. -/
def Regs.proto (r : Regs) : Proto where
  state := r.state
  cacheIdx := r.cacheIdx
  cacheTag := r.cacheTag
  gotReq := r.gotReq
  lastWr := r.lastWr
  isRetry := r.isRetry
  didReload := r.didReload
  req := r.req
  reqIdx := r.reqIdx
  gotReq2 := r.gotReq2
  req2 := r.req2
  cacheIdx2 := r.cacheIdx2
  memReqValid := r.memReqValid
  memReq := r.memReq
  inhibitWrite := r.inhibitWrite
  reloadIssue := r.reloadIssue
  lockCache := r.lockCache
  uncacheWbDirty := r.uncacheWbDirty
  chopWait := r.chopWait
  clIsDma := r.clIsDma
  pend := r.pend
  pgOff := r.pgOff
  flushComplete := r.flushComplete
  dmaInvalAck := r.dmaInvalAck
  prbSeen := r.prbSeen
  prbAck := r.prbAck
  prbDirty := r.prbDirty
  prbData := r.prbData
  prbRet := r.prbRet
  prbSave := r.prbSave
  prbTag := r.prbTag

/-- The registers with the one-cycle pulses taken back and the flush pulses latched: what
every state starts from. -/
def Proto.tick (p : Proto) (i : Input) : Proto :=
  { p with
    cacheIdx := 0
    cacheTag := 0
    gotReq := false
    lastWr := false
    isRetry := false
    didReload := false
    gotReq2 := false
    cacheIdx2 := 0
    memReqValid := false
    pend := p.pend.latch i
    flushComplete := false
    dmaInvalAck := false
    prbSeen := p.prbSeen && i.probeReq
    prbAck := false }

/-- A request sent to the L2. -/
def Proto.send (p : Proto) (q : MemReq) (t : State) : Proto :=
  { p with memReqValid := true, memReq := q, state := t }

/-- The head of the miss queue enters port 1. -/
def Proto.fire (g : Geometry) (f : Option MqEntry) (p : Proto) : Proto :=
  match f with
  | none => p
  | some e =>
      { p with
        req := e.req, reqIdx := e.idx, cacheIdx := e.idx, cacheTag := g.l1Tag e.req.line
        gotReq := true, isRetry := true, lastWr := e.req.commit }

/-- A request of the core enters port 2. -/
def Proto.accept (g : Geometry) (i : Input) (b : Bool) (p : Proto) : Proto :=
  if b then
    { p with cacheIdx2 := g.l1Idx i.coreReq.line, req2 := i.coreReq, gotReq2 := true }
  else p

/-- The request on port 1 is looked up again. -/
def Proto.refire (g : Geometry) (p : Proto) : Proto :=
  { p with
    gotReq := true, cacheIdx := p.reqIdx, cacheTag := g.l1Tag p.req.line, state := .active }

/-- An entry with its valid and dirty bits cleared. -/
def dropEntry (e : L1dEntry) : L1dEntry := { e with valid := false, dirty := false }

/-- The set read on port 1. -/
def cur (s : L1d) : L1dEntry := s.arr s.regs.cacheIdx

/-- The array with that set dropped. -/
def dropCur (s : L1d) : Nat → L1dEntry := Function.update s.arr s.regs.cacheIdx (dropEntry s.cur)

/-- The line in the set read on port 1, as a whole-line request. -/
def curLine (g : Geometry) (s : L1d) (op : MemOp) : MemReq where
  addr := g.l1Line s.cur.tag s.regs.cacheIdx
  idx := s.regs.cacheIdx
  storeData := s.cur.data
  opcode := op
  cacheable := true
  mask := Mask.full

/-- The request on port 1 hits. -/
def hits (g : Geometry) (s : L1d) : Bool :=
  s.cur.valid && s.cur.tag == g.l1Tag s.regs.req.line

/-- The store on port 1 is performed in the array. -/
def performs (s : L1d) : Bool := wrArray s.regs s.out && s.regs.req.cached

/-- The entry of the miss queue that may enter port 1. -/
def Fires (s : L1d) (i : Input) (f : Option MqEntry) : Prop :=
  ∀ e, f = some e → s.mq.head? = some e ∧ prbPend s.regs i = false ∧
    (s.regs.gotReq = true → s.regs.lastWr = true → s.regs.cacheIdx ≠ e.idx)

/-- The request that may enter port 2. -/
def Accepts (s : L1d) (i : Input) (b : Bool) : Prop :=
  b = true → i.coreReqValid = true ∧ prbPend s.regs i = false

/-- The states that wait for a reply of the L2. -/
def waiting : State → Bool
  | .injectReload | .injectUncacheStore | .injectUncacheLoad | .flushClWait | .flushCacheWait
  | .flushCacheLastWait | .flushPgWait => true
  | _ => false

/-- The index a waiting state reads. -/
def waitIdx (r : Regs) : Nat :=
  match r.state with
  | .flushCacheWait | .flushCacheLastWait | .flushPgWait => r.cacheIdx
  | _ => 0

/-- The line a `FLUSH_CL` works on. -/
def clAddr (r : Regs) (i : Input) : LineAddr := if r.clIsDma then i.dmaInvalAddr else i.flushClAddr

/-- What one clock edge can do to the registers and the array. -/
inductive Step (g : Geometry) (s : L1d) (i : Input) : Proto → (Nat → L1dEntry) → Prop
  | init (hs : s.regs.state = .init) :
      Step g s i { s.regs.proto.tick i with state := .initCache } s.arr
  | initCache (hs : s.regs.state = .initCache) (hx : s.regs.cacheIdx ≠ g.l1Sets - 1) :
      Step g s i { s.regs.proto.tick i with cacheIdx := l1Succ g s.regs.cacheIdx } s.dropCur
  | initCacheLast (hs : s.regs.state = .initCache) (hx : s.regs.cacheIdx = g.l1Sets - 1) :
      Step g s i
        { s.regs.proto.tick i with
          cacheIdx := l1Succ g s.regs.cacheIdx, state := .active, flushComplete := true } s.arr
  | run (hs : s.regs.state = .active) (hw : performs s = false) (f : Option MqEntry)
      (hf : Fires s i f) (b : Bool) (hb : Accepts s i b) :
      Step g s i (((s.regs.proto.tick i).fire g f).accept g i b) s.arr
  | store (hs : s.regs.state = .active) (hg : s.regs.gotReq = true)
      (hw : performs s = true) (hc : s.regs.req.cached = true)
      (ho : CoreReq.storeOp s.regs.req.op = true) (hh : hits g s = true)
      (f : Option MqEntry) (hf : Fires s i f) (b : Bool) (hb : Accepts s i b) :
      Step g s i (((s.regs.proto.tick i).fire g f).accept g i b)
        (Function.update s.arr s.regs.cacheIdx
          { s.cur with dirty := true, data := s.regs.req.storeLine s.cur.data })
  | stall (hs : s.regs.state = .active) (hg : s.regs.gotReq = true)
      (hc : s.regs.req.cached = true) (hh : hits g s = false) (w r : Bool) :
      Step g s i { s.regs.proto.tick i with inhibitWrite := w, reloadIssue := r } s.arr
  | directFill (hs : s.regs.state = .active) (hg : s.regs.gotReq2 = true)
      (hf : directFillOk g s i = true) (hq : s.regs.gotReq = false)
      (hb : s.regs.req2.badAddr = false) (hc : s.regs.req2.commit = false)
      (hv : (s.arr (g.l1Idx s.regs.req2.line)).valid = true →
        (s.arr (g.l1Idx s.regs.req2.line)).dirty = false)
      (hm : ¬ ((s.arr (g.l1Idx s.regs.req2.line)).valid = true ∧
        (s.arr (g.l1Idx s.regs.req2.line)).tag = i.tlbPpn)) :
      Step g s i
        ({ s.regs.proto.tick i with
            req := remappedReq2 g s i, reqIdx := g.l1Idx s.regs.req2.line, reloadIssue := true
            inhibitWrite := false, lockCache := false }.send
          { s.regs.memReq with
            addr := (remappedReq2 g s i).line, idx := g.l1Idx s.regs.req2.line, opcode := .lw
            cacheable := true, mask := Mask.full } .injectReload) s.arr
  | chopWb (hs : s.regs.state = .active) (hg : s.regs.gotReq = true)
      (hc : s.regs.req.isChop = true) (hh : hits g s = true) (hd : s.cur.dirty = true) :
      Step g s i
        ({ s.regs.proto.tick i with chopWait := true, inhibitWrite := true }.send
          (s.curLine g .wb) .flushClWait) s.dropCur
  | chopInvl (hs : s.regs.state = .active) (hg : s.regs.gotReq = true)
      (hc : s.regs.req.isChop = true)
      (hd : hits g s = true → s.cur.dirty = true → s.regs.req.op = .chinv) :
      Step g s i
        ({ s.regs.proto.tick i with chopWait := true }.send (reqLine s.regs .invl) .flushClWait)
        (if hits g s then s.dropCur else s.arr)
  | uncachedEvict (hs : s.regs.state = .active) (hg : s.regs.gotReq = true)
      (hc : s.regs.req.cached = false) (hh : hits g s = true) (hd : s.cur.dirty = true)
      (data : Line) :
      Step g s i
        ({ s.regs.proto.tick i with uncacheWbDirty := true, inhibitWrite := true }.send
          (s.curLine g .sw) .uncacheWb)
        (Function.update s.arr s.regs.cacheIdx { dropEntry s.cur with data := data })
  | uncachedDrop (hs : s.regs.state = .active) (hg : s.regs.gotReq = true)
      (hc : s.regs.req.cached = false) (hh : hits g s = true) (hd : s.cur.dirty = false)
      (data : Line) :
      Step g s i
        { s.regs.proto.tick i with uncacheWbDirty := false, state := .uncacheWb }
        (Function.update s.arr s.regs.cacheIdx { dropEntry s.cur with data := data })
  | uncachedSend (hs : s.regs.state = .active) (hg : s.regs.gotReq = true)
      (hc : s.regs.req.cached = false) (hh : hits g s = false) :
      Step g s i
        ((s.regs.proto.tick i).send
          { addr := s.regs.req.line, idx := s.regs.reqIdx
            storeData := s.regs.req.storeLine s.cur.data
            opcode := if s.regs.req.isStore then .sw else .lw, cacheable := false
            mask := s.regs.req.uncStMask }
          (if s.regs.req.isStore then .injectUncacheStore else .injectUncacheLoad)) s.arr
  | victim (hs : s.regs.state = .active) (hg : s.regs.gotReq = true)
      (hc : s.regs.req.cached = true) (hh : hits g s = false) (hv : s.cur.valid = true)
      (hd : s.cur.dirty = true) :
      Step g s i
        ({ s.regs.proto.tick i with
            reloadIssue := true, inhibitWrite := true, lockCache := true }.send
          (s.curLine g .sw) .injectReload) s.arr
  | fetch (hs : s.regs.state = .active) (hg : s.regs.gotReq = true)
      (hc : s.regs.req.cached = true) (hh : hits g s = false)
      (hv : s.cur.valid = true → s.cur.dirty = false) :
      Step g s i
        ({ s.regs.proto.tick i with
            reloadIssue := true, inhibitWrite := false, lockCache := false
            cacheIdx := s.regs.cacheIdx }.send (reqLine s.regs .lw) .injectReload) s.arr
  | startCache (hs : s.regs.state = .active) (hd : drained s i = true)
      (hp : s.regs.pend.cache = true) :
      Step g s i
        { s.regs.proto.tick i with
          state := .flushCache, cacheIdx := 0
          pend := { s.regs.pend.latch i with cache := false }
          memReq := { s.regs.memReq with mask := Mask.full, cacheable := true } } s.arr
  | startCl (hs : s.regs.state = .active) (hd : drained s i = true)
      (hp : s.regs.pend.cl = true) :
      Step g s i
        { s.regs.proto.tick i with
          state := .flushCl, cacheIdx := g.l1Idx i.flushClAddr
          pend := { s.regs.pend.latch i with cl := false }, clIsDma := false } s.arr
  | startPg (hs : s.regs.state = .active) (hd : drained s i = true)
      (hp : s.regs.pend.pg = true) :
      Step g s i
        { s.regs.proto.tick i with
          state := .flushPg, cacheIdx := g.l1Idx (i.flushClAddr / g.pgLines * g.pgLines)
          pend := { s.regs.pend.latch i with pg := false }, pgOff := 0 } s.arr
  | startDma (hs : s.regs.state = .active) (hd : drained s i = true)
      (hp : s.regs.pend.dma = true) :
      Step g s i
        { s.regs.proto.tick i with
          state := .flushCl, cacheIdx := g.l1Idx i.dmaInvalAddr
          pend := { s.regs.pend.latch i with dma := false }, clIsDma := true } s.arr
  | takeProbe (hp : prbPend s.regs i = true) (hg : s.regs.gotReq = false)
      (hg2 : s.regs.gotReq2 = false) (hr : i.memRspValid = false)
      (ho : prbOkState s.regs = true) :
      Step g s i
        { s.regs.proto.tick i with
          prbSave := waitIdx s.regs, prbRet := s.regs.state, prbTag := g.l1Tag i.probeAddr
          cacheIdx := g.l1Set i.probeAddr i.probeColour, state := .probeChk } s.arr
  | probeChk (hs : s.regs.state = .probeChk) (hit transit : Bool)
      (hh : hit = (s.cur.valid && s.cur.tag == s.regs.prbTag))
      (ht : transit = (s.regs.prbRet != .active &&
        (s.regs.memReq.opcode == .sw || s.regs.memReq.opcode == .wb) &&
          s.regs.memReq.addr == i.probeAddr)) :
      Step g s i
        { s.regs.proto.tick i with
          prbAck := true, prbDirty := transit || (hit && s.cur.dirty)
          prbData := if transit then s.regs.memReq.storeData else s.cur.data
          prbSeen := true, cacheIdx := s.regs.prbSave, state := s.regs.prbRet }
        (if hit then s.dropCur else s.arr)
  | wait (hs : waiting s.regs.state = true ∨
        s.regs.state = .uncacheWb ∧ s.regs.uncacheWbDirty = true)
      (hr : i.memRspValid = false) (b : Bool) (hb : Accepts s i b)
      (hs' : b = true → s.regs.state = .injectReload) :
      Step g s i
        ({ s.regs.proto.tick i with cacheIdx := waitIdx s.regs }.accept g i b) s.arr
  | reload (hs : s.regs.state = .injectReload) (hr : i.memRspValid = true) (t : State)
      (ht : t = .active ∨ t = .handleReload ∧ s.regs.reloadIssue = true)
      (ht' : s.regs.memReq.opcode ≠ .lw → s.regs.reloadIssue = true → t = .handleReload) :
      Step g s i
        { s.regs.proto.tick i with inhibitWrite := false, reloadIssue := false, state := t }
        (Function.update s.arr s.regs.memReq.idx
          ⟨!s.regs.inhibitWrite, false, g.l1Tag s.regs.memReq.addr, i.memRspLoadData⟩)
  | handleReload (hs : s.regs.state = .handleReload) :
      Step g s i
        { (s.regs.proto.tick i).refire g with
          lastWr := s.regs.req.isStore, didReload := true } s.arr
  | uncacheDone (hs : s.regs.state = .injectUncacheStore ∨ s.regs.state = .injectUncacheLoad)
      (hr : i.memRspValid = true) :
      Step g s i { s.regs.proto.tick i with state := .active } s.arr
  | uncacheWbDone (hs : s.regs.state = .uncacheWb)
      (hr : s.regs.uncacheWbDirty = false ∨ i.memRspValid = true) :
      Step g s i
        { (s.regs.proto.tick i).refire g with
          inhibitWrite := false, uncacheWbDirty := false } s.arr
  | flushClInvl (hs : s.regs.state = .flushCl)
      (hv : (s.regs.clIsDma || i.flushClInval) = true) :
      Step g s i
        ((s.regs.proto.tick i).send
          { s.regs.memReq with
            addr := clAddr s.regs i, idx := g.l1Idx (clAddr s.regs i), opcode := .invl
            cacheable := true, mask := Mask.full } .flushClWait)
        (if s.cur.valid && s.cur.tag == g.l1Tag (clAddr s.regs i) then s.dropCur else s.arr)
  | flushClWb (hs : s.regs.state = .flushCl) (hd : s.cur.dirty = true)
      (hv : (s.regs.clIsDma || i.flushClInval) = false) :
      Step g s i
        ({ s.regs.proto.tick i with inhibitWrite := true }.send
          { s.curLine g .wb with mask := s.regs.memReq.mask } .flushClWait) s.dropCur
  | flushClClean (hs : s.regs.state = .flushCl) (hd : s.cur.dirty = false)
      (hv : (s.regs.clIsDma || i.flushClInval) = false) :
      Step g s i { s.regs.proto.tick i with flushComplete := true, state := .active } s.dropCur
  | flushClDone (hs : s.regs.state = .flushClWait) (hr : i.memRspValid = true) (a f d : Bool)
      (ha : a = s.regs.clIsDma) (hd : d = false)
      (hf : f = (!s.regs.clIsDma && !s.regs.chopWait)) :
      Step g s i
        { s.regs.proto.tick i with
          inhibitWrite := false, chopWait := false, dmaInvalAck := a, flushComplete := f
          clIsDma := d, state := .active } s.arr
  | flushPgWb (hs : s.regs.state = .flushPg) (hv : i.flushClInval = false)
      (hh : (s.cur.valid && s.cur.tag == g.l1Tag (pgLine g s.regs i)) = true)
      (hd : s.cur.dirty = true) :
      Step g s i
        ({ s.regs.proto.tick i with cacheIdx := s.regs.cacheIdx, inhibitWrite := true }.send
          { addr := pgLine g s.regs i, idx := g.l1Idx (pgLine g s.regs i)
            storeData := s.cur.data, opcode := .wb, cacheable := true, mask := Mask.full }
          .flushPgWait) s.dropCur
  | flushPgDrop (hs : s.regs.state = .flushPg) (op : MemOp)
      (ho : op = if i.flushClInval then .pgdrop else .invl)
      (hd : i.flushClInval = true ∨
        (s.cur.valid && s.cur.tag == g.l1Tag (pgLine g s.regs i)) = false ∨
        s.cur.dirty = false) :
      Step g s i
        ({ s.regs.proto.tick i with cacheIdx := s.regs.cacheIdx }.send
          { s.regs.memReq with
            addr := pgLine g s.regs i, idx := g.l1Idx (pgLine g s.regs i), opcode := op
            cacheable := true, mask := Mask.full } .flushPgWait)
        (if s.cur.valid && s.cur.tag == g.l1Tag (pgLine g s.regs i) then s.dropCur else s.arr)
  | flushPgNext (hs : s.regs.state = .flushPgWait) (hr : i.memRspValid = true)
      (hx : s.regs.pgOff ≠ g.pgLines - 1) :
      Step g s i
        { s.regs.proto.tick i with
          inhibitWrite := false, pgOff := s.regs.pgOff + 1
          cacheIdx := g.l1Idx (i.flushClAddr / g.pgLines * g.pgLines + (s.regs.pgOff + 1))
          state := .flushPg } s.arr
  | flushPgLast (hs : s.regs.state = .flushPgWait) (hr : i.memRspValid = true)
      (hx : s.regs.pgOff = g.pgLines - 1) :
      Step g s i
        { s.regs.proto.tick i with
          inhibitWrite := false, cacheIdx := s.regs.cacheIdx, flushComplete := true
          state := .active } s.arr
  | flushDirty (hs : s.regs.state = .flushCache) (hd : s.cur.dirty = true) (t : State)
      (ht : t = if s.regs.cacheIdx = g.l1Sets - 1 then .flushCacheLastWait
        else .flushCacheWait) :
      Step g s i
        ({ s.regs.proto.tick i with
            cacheIdx := l1Succ g s.regs.cacheIdx, inhibitWrite := true }.send
          { s.curLine g .sw with
            cacheable := s.regs.memReq.cacheable, mask := s.regs.memReq.mask } t) s.dropCur
  | flushClean (hs : s.regs.state = .flushCache) (hd : s.cur.dirty = false)
      (hx : s.regs.cacheIdx ≠ g.l1Sets - 1) :
      Step g s i
        { s.regs.proto.tick i with cacheIdx := l1Succ g s.regs.cacheIdx } s.dropCur
  | flushCleanLast (hs : s.regs.state = .flushCache) (hd : s.cur.dirty = false)
      (hx : s.regs.cacheIdx = g.l1Sets - 1) :
      Step g s i
        { s.regs.proto.tick i with
          cacheIdx := l1Succ g s.regs.cacheIdx, state := .active, flushComplete := true }
        s.dropCur
  | flushNext (hs : s.regs.state = .flushCacheWait) (hr : i.memRspValid = true) :
      Step g s i
        { s.regs.proto.tick i with
          cacheIdx := s.regs.cacheIdx, state := .flushCache, inhibitWrite := false } s.arr
  | flushLast (hs : s.regs.state = .flushCacheLastWait) (hr : i.memRspValid = true) :
      Step g s i
        { s.regs.proto.tick i with
          cacheIdx := s.regs.cacheIdx, state := .active, inhibitWrite := false
          flushComplete := true } s.arr

/-! ## The RAM writes of a cycle -/

section Write

variable {g : Geometry} {s : L1d} {i : Input} {c : Comb}

/-- The L1D expects a reply. -/
def Expects (r : Regs) : Prop :=
  waiting r.state = true ∨ r.state = .uncacheWb ∧ r.uncacheWbDirty = true

theorem writeEntry_keep (hf : fill s.regs i = false) (hw : wrArray s.regs s.out = false)
    (hm : c.markInvalid = false) : writeEntry g s i c = s.arr := by
  funext j
  simp [writeEntry, hf, hw, hm]

theorem writeEntry_drop (hf : fill s.regs i = false) (hw : wrArray s.regs s.out = false)
    (hm : c.markInvalid = true) : writeEntry g s i c = s.dropCur := by
  funext j
  by_cases hj : j = s.regs.cacheIdx
  · subst hj
    simp [writeEntry, hf, hw, hm, dropCur, dropEntry, cur]
  · simp [writeEntry, hf, hw, hm, dropCur, hj]

theorem writeEntry_mark (hf : fill s.regs i = false) (hw : wrArray s.regs s.out = false)
    {b : Bool} (hm : c.markInvalid = b) :
    writeEntry g s i c = if b then s.dropCur else s.arr := by
  cases b
  · exact writeEntry_keep hf hw hm
  · exact writeEntry_drop hf hw hm

theorem writeEntry_store (hr : i.memRspValid = false) (hw : wrArray s.regs s.out = true)
    (hm : c.markInvalid = false) (hd : tData s.regs s.out i = s.cur.data) :
    writeEntry g s i c =
      Function.update s.arr s.regs.cacheIdx
        { s.cur with dirty := true, data := s.regs.req.storeLine s.cur.data } := by
  have hf : fill s.regs i = false := by simp [fill, hr]
  funext j
  by_cases hj : j = s.regs.cacheIdx
  · subst hj
    simp [writeEntry, hf, hw, hm, hr, hd, cur]
  · simp [writeEntry, hf, hw, hm, hr, hj]

/-- A drop in the same cycle as a write leaves an invalid set. -/
theorem writeEntry_dropData (hr : i.memRspValid = false) (hm : c.markInvalid = true) :
    ∃ data, writeEntry g s i c =
      Function.update s.arr s.regs.cacheIdx { dropEntry s.cur with data := data } := by
  have hf : fill s.regs i = false := by simp [fill, hr]
  refine ⟨if wrArray s.regs s.out then s.regs.req.storeLine (tData s.regs s.out i)
    else s.cur.data, ?_⟩
  funext j
  by_cases hj : j = s.regs.cacheIdx
  · subst hj
    cases hw : wrArray s.regs s.out <;>
      simp [writeEntry, hf, hw, hm, hr, dropEntry, cur]
  · cases hw : wrArray s.regs s.out <;>
      simp [writeEntry, hf, hw, hm, hr, hj]

theorem writeEntry_fill (hf : fill s.regs i = true) (hw : wrArray s.regs s.out = false)
    (hm : c.markInvalid = false) :
    writeEntry g s i c =
      Function.update s.arr s.regs.memReq.idx
        ⟨!s.regs.inhibitWrite, false, g.l1Tag s.regs.memReq.addr, i.memRspLoadData⟩ := by
  have hr : i.memRspValid = true := by
    simp only [fill, Bool.and_eq_true] at hf
    exact hf.2
  funext j
  by_cases hj : j = s.regs.memReq.idx
  · subst hj
    simp [writeEntry, hf, hw, hm, hr]
  · simp [writeEntry, hf, hw, hm, hr, hj]

/-- Only `ACTIVE` writes stores. -/
theorem wrArray_of_noReq (hg : s.regs.gotReq = false) : wrArray s.regs s.out = false := by
  simp [wrArray, hitCache, hg]

theorem fill_of_state (hs : s.regs.state ≠ .injectReload) : fill s.regs i = false := by
  simp [fill, hs]

end Write

/-! ## Every clock edge is one of these steps -/

section StepNext

variable {g : Geometry} {s : L1d} {i : Input} {c : Comb}

/-- The values every state starts from, up to the commands of port 2. -/
structure Base (s : L1d) (i : Input) (c : Comb) : Prop where
  n : c.n = (combDefault s i).n
  markInvalid : c.markInvalid = false
  gotMiss : c.gotMiss = false
  gotRdRetry : c.gotRdRetry = false
  popMq : c.popMq = false
  p2Accept : c.p2Accept = false

/-- Port 2 leaves the registers alone, or starts a fill. -/
theorem base_or_fill (g : Geometry) (s : L1d) (i : Input) :
    Base s i (port2 g s i (combDefault s i)) ∨
      directFillOk g s i = true ∧ s.regs.req2.badAddr = false ∧ s.regs.req2.commit = false ∧
        port2 g s i (combDefault s i) = directFill g s i (combDefault s i) := by
  have h := port2_cases g s i (combDefault s i)
  generalize port2 g s i (combDefault s i) = c at h
  cases h with
  | keep | push | sbWr => exact .inl ⟨rfl, rfl, rfl, rfl, rfl, rfl⟩
  | fill hf hb hc => exact .inr ⟨hf, hb, hc, rfl⟩

/-- What a direct fill needs. -/
theorem directFillOk_iff (h : directFillOk g s i = true) :
    s.regs.state = .active ∧ s.regs.gotReq2 = true ∧ s.regs.gotReq = false ∧ s.mq = [] ∧
      s.regs.rrLastWr = false ∧ port2Hit s i = false ∧
      (s.out2.valid && s.out2.dirty) = false ∧
      s.regs.cacheIdx2 = g.l1Idx s.regs.req2.line ∧ (remappedReq2 g s i).cached = true ∧
      s.regs.req2.isStore = false ∧ s.regs.req2.lsuHold = true := by
  simp only [directFillOk, Bool.and_eq_true, Bool.not_eq_true', beq_iff_eq,
    List.isEmpty_iff] at h
  obtain ⟨⟨⟨⟨⟨⟨⟨⟨⟨⟨⟨⟨⟨⟨⟨⟨h1, h2⟩, -⟩, h4⟩, h5⟩, h6⟩, h7⟩, -⟩, h9⟩, h10⟩, h11⟩, -⟩, -⟩, -⟩, -⟩, h16⟩, h17⟩ :=
    h
  exact ⟨h1, h2, h10, h9, h11, h7, h16, h17, h6, h5, h4⟩

theorem prbPend_false_of (h : prbPend s.regs i = false) (r : Regs) (c : Comb)
    (hr : r = s.regs) : takeProbe g r i c = c := by
  subst hr
  simp [takeProbe, h]

theorem takeProbe_of_gotReq (h : s.regs.gotReq = true) : takeProbe g s.regs i c = c := by
  simp [takeProbe, h]

theorem takeProbe_of_state (h : c.n.state ≠ s.regs.state ∨ prbOkState s.regs = false) :
    takeProbe g s.regs i c = c := by
  rcases h with h | h
  · simp [takeProbe, h]
  · simp [takeProbe, h]

theorem acceptPort2_of_not (h : c.p2Accept = false) : acceptPort2 g i c = c := by
  simp [acceptPort2, h]

theorem startFlush_of_not (h : drained s i = false) : startFlush g s i c = c := by
  simp [startFlush, h]

theorem drained_of_gotReq (h : s.regs.gotReq = true) : drained s i = false := by
  simp [drained, h]

theorem drained_of_gotReq2 (h : s.regs.gotReq2 = true) : drained s i = false := by
  simp [drained, h]

theorem mqHead_of_miss (h : c.gotMiss = true) : mqHead g s i c = c := by
  unfold mqHead
  split
  · rfl
  · simp [h]

/-- A port-1 request that leaves `ACTIVE` is all the cycle does. -/
theorem active_of_miss (hg : s.regs.gotReq = true) (hm : (port1 g s i c).gotMiss = true) :
    active g s i c = port1 g s i c := by
  unfold active
  simp only [mqHead_of_miss hm, hm, Bool.not_true, Bool.and_false, Bool.false_and,
    Bool.false_eq_true, if_false, startFlush_of_not (drained_of_gotReq hg), ite_self]

/-- The combinational result after the state machine. -/
def settle (g : Geometry) (s : L1d) (i : Input) (c : Comb) : Comb :=
  acceptPort2 g i (takeProbe g s.regs i c)

/-- The clock edge makes a listed step if the combinational result says so. -/
def Steps (g : Geometry) (s : L1d) (i : Input) (c : Comb) : Prop :=
  Step g s i c.n.proto (writeEntry g s i c)

theorem settle_of_miss (hg : s.regs.gotReq = true) (hm : (port1 g s i c).gotMiss = true)
    (ha : (port1 g s i c).p2Accept = false) :
    settle g s i (active g s i c) = port1 g s i c := by
  rw [settle, active_of_miss hg hm, takeProbe_of_gotReq hg, acceptPort2_of_not ha]

section Port1

variable (hp : Pipe g s) (hs : s.regs.state = .active) (hg : s.regs.gotReq = true)
  (hr : i.memRspValid = false) (hb : Base s i c)

include hp hg in
theorem out_eq_cur : s.out = s.cur := (hp.got hg).2.1

include hp hg in
theorem tagHit_eq_hits : tagHit s.regs s.out = hits g s := by
  rw [tagHit, hits, out_eq_cur hp hg, (hp.got hg).2.2.2]

include hp hs hr in
theorem tData_active : tData s.regs s.out i = s.out.data := by
  simp [tData, fillBypass, fill, hs, hr, hp.forward]

include hs in
theorem fill_active : fill s.regs i = false := fill_of_state (by simp [hs])

include hp hs hg hr hb in
theorem steps_chop (hc : s.regs.req.isChop = true) : Steps g s i (settle g s i (active g s i c)) := by
  have hw : wrArray s.regs s.out = false := by
    cases ho : s.regs.req.op <;> simp_all [wrArray, CoreReq.storeOp, CoreReq.isChop]
  by_cases hd : (tagHit s.regs s.out && s.out.dirty && s.regs.req.op != .chinv) = true
  · have h1 : port1 g s i c =
        send (victimLine g s.regs s.out i .wb) .flushClWait
          { c with
            gotMiss := true, markInvalid := true
            n := { c.n with chopWait := true, inhibitWrite := true } } := by
      simp only [port1, hg, hc, if_true, chopReq, hd]
    rw [settle_of_miss hg (by rw [h1]; rfl) (by rw [h1]; exact hb.p2Accept), h1, Steps,
      writeEntry_drop (fill_active hs) hw rfl]
    simp only [Bool.and_eq_true] at hd
    have h := Step.chopWb (g := g) (i := i) hs hg hc (tagHit_eq_hits hp hg ▸ hd.1.1)
      (by rw [← out_eq_cur hp hg]; exact hd.1.2)
    have hv : victimLine g s.regs s.out i .wb = s.curLine g .wb := by
      rw [victimLine, curLine, tData_active hp hs hr, out_eq_cur hp hg]
    rw [hv, send, hb.n]
    exact h
  · have h1 : port1 g s i c =
        send (reqLine s.regs .invl) .flushClWait
          { c with
            gotMiss := true, markInvalid := tagHit s.regs s.out
            n := { c.n with chopWait := true } } := by
      simp only [port1, hg, hc, if_true, chopReq, hd]
      rfl
    rw [settle_of_miss hg (by rw [h1]; rfl) (by rw [h1]; exact hb.p2Accept), h1, Steps,
      writeEntry_mark (fill_active hs) hw (tagHit_eq_hits hp hg), send, hb.n]
    refine Step.chopInvl hs hg hc fun h2 h3 => ?_
    rw [← tagHit_eq_hits hp hg] at h2
    rw [← out_eq_cur hp hg] at h3
    simpa [h2, h3] using hd

include hp hs hg hr hb in
theorem steps_uncached (hc : s.regs.req.isChop = false) (hu : s.regs.req.cached = false)
    (hd : (!s.regs.req.isStore && i.drainDsComplete && i.dead) = false) :
    Steps g s i (settle g s i (active g s i c)) := by
  have h0 : port1 g s i c = uncachedReq g s i c := by
    simp only [port1, hg, hc, if_true, Bool.false_eq_true, if_false, hu, Bool.not_false,
      Bool.true_and, hd]
  have ht := tagHit_eq_hits hp hg
  by_cases hh : hits g s = true
  · by_cases hdd : s.out.dirty = true
    · have h1 : port1 g s i c =
          send (victimLine g s.regs s.out i .sw) .uncacheWb
            { c with
              gotMiss := true, markInvalid := true
              n :=
                { c.n with
                  uncacheWbDirty := s.out.dirty, state := .uncacheWb, inhibitWrite := true } } := by
        simp only [h0, uncachedReq, ht, hh, if_true, hdd]
      rw [settle_of_miss hg (by rw [h1]; rfl) (by rw [h1]; exact hb.p2Accept), h1, Steps]
      obtain ⟨data, hdata⟩ := writeEntry_dropData (g := g) (s := s) hr
        (c := send (victimLine g s.regs s.out i .sw) .uncacheWb
            { c with
              gotMiss := true, markInvalid := true
              n :=
                { c.n with
                  uncacheWbDirty := s.out.dirty, state := .uncacheWb, inhibitWrite := true } }) rfl
      rw [hdata]
      have hv : victimLine g s.regs s.out i .sw = s.curLine g .sw := by
        rw [victimLine, curLine, tData_active hp hs hr, out_eq_cur hp hg]
      have h := Step.uncachedEvict (g := g) (i := i) hs hg hu hh
        (by rw [← out_eq_cur hp hg]; exact hdd) data
      rw [hv, send, hb.n, hdd]
      exact h
    · have hdd' : s.out.dirty = false := by simpa using hdd
      have h1 : port1 g s i c =
          { c with
            gotMiss := true, markInvalid := true
            n := { c.n with uncacheWbDirty := s.out.dirty, state := .uncacheWb } } := by
        simp only [h0, uncachedReq, ht, hh, if_true, hdd]
        rfl
      rw [settle_of_miss hg (by rw [h1]) (by rw [h1]; exact hb.p2Accept), h1, Steps]
      obtain ⟨data, hdata⟩ := writeEntry_dropData (g := g) (s := s) hr
        (c := { c with
            gotMiss := true, markInvalid := true
            n := { c.n with uncacheWbDirty := s.out.dirty, state := .uncacheWb } }) rfl
      rw [hdata]
      have h := Step.uncachedDrop (g := g) (i := i) hs hg hu hh
        (by rw [← out_eq_cur hp hg]; exact hdd') data
      rw [hb.n, hdd']
      exact h
  · have hh' : hits g s = false := by simpa using hh
    have h1 : port1 g s i c =
        send
          { addr := s.regs.req.line, idx := s.regs.reqIdx
            storeData := s.regs.req.storeLine (tData s.regs s.out i)
            opcode := if s.regs.req.isStore then .sw else .lw, cacheable := false
            mask := s.regs.req.uncStMask }
          (if s.regs.req.isStore then .injectUncacheStore else .injectUncacheLoad)
          { c with gotMiss := true } := by
      simp only [h0, uncachedReq, ht, hh, Bool.false_eq_true, if_false]
    have hw : wrArray s.regs s.out = false := by
      simp [wrArray, hitCache, ht, hh']
    rw [settle_of_miss hg (by rw [h1]; rfl) (by rw [h1]; exact hb.p2Accept), h1, Steps,
      writeEntry_keep (fill_active hs) hw (by exact hb.markInvalid), send, hb.n, tData_active hp hs hr,
      out_eq_cur hp hg]
    exact Step.uncachedSend hs hg hu hh'

include hp hs hg hr hb in
theorem steps_miss (hc : s.regs.req.isChop = false) (hu : s.regs.req.cached = true)
    (hh : hits g s = false) : Steps g s i (settle g s i (active g s i c)) := by
  have ht := tagHit_eq_hits hp hg
  have hw : wrArray s.regs s.out = false := by simp [wrArray, hitCache, ht, hh]
  have hj := hp.fresh hg
  by_cases hv : (s.out.valid && s.out.dirty) = true
  · have h0 : port1 g s i c = dirtyMiss g s i c := by
      simp [port1, hg, hc, hu, ht, hh, hv]
    by_cases hbusy : ((s.regs.hitBusyAddr && s.regs.isRetry) || !s.regs.hitBusyAddr) = true
    · have h1 : port1 g s i c =
          send (victimLine g s.regs s.out i .sw) .injectReload
            { c with
              gotMiss := true
              n :=
                { c.n with
                  reloadIssue := true, inhibitWrite := true, lockCache := true } } := by
        simp only [h0, dirtyMiss, hbusy, if_true, hj, Bool.false_eq_true, if_false]
      have hvic : victimLine g s.regs s.out i .sw = s.curLine g .sw := by
        rw [victimLine, curLine, tData_active hp hs hr, out_eq_cur hp hg]
      rw [settle_of_miss hg (by rw [h1]; rfl) (by rw [h1]; exact hb.p2Accept), h1, Steps,
        writeEntry_keep (fill_active hs) hw (by exact hb.markInvalid), hvic, send, hb.n]
      rw [out_eq_cur hp hg, Bool.and_eq_true] at hv
      exact Step.victim hs hg hu hh hv.1 hv.2
    · have h1 : port1 g s i c =
          { c with
            gotMiss := true
            n := { c.n with reloadIssue := true, inhibitWrite := true } } := by
        simp only [h0, dirtyMiss, hbusy]
        rfl
      rw [settle_of_miss hg (by rw [h1]) (by rw [h1]; exact hb.p2Accept), h1, Steps,
        writeEntry_keep (fill_active hs) hw (by exact hb.markInvalid), hb.n]
      exact Step.stall hs hg hu hh true true
  · have h0 : port1 g s i c = cleanMiss g s c := by
      simp [port1, hg, hc, hu, ht, hh, hv]
    by_cases hbusy : ((s.regs.hitBusyAddr && s.regs.isRetry) || !s.regs.hitBusyAddr ||
        s.regs.lockCache) = true
    · have h1 : port1 g s i c =
          send (reqLine s.regs .lw) .injectReload
            { c with
              gotMiss := true
              n :=
                { c.n with
                  inhibitWrite := false, reloadIssue := true, cacheIdx := s.regs.cacheIdx
                  lockCache := false } } := by
        simp only [h0, cleanMiss, hbusy, if_true, hj, Bool.false_eq_true, if_false]
      rw [settle_of_miss hg (by rw [h1]; rfl) (by rw [h1]; exact hb.p2Accept), h1, Steps,
        writeEntry_keep (fill_active hs) hw (by exact hb.markInvalid), send, hb.n]
      rw [out_eq_cur hp hg] at hv
      refine Step.fetch hs hg hu hh fun h => ?_
      simpa [h] using hv
    · have h1 : port1 g s i c =
          { c with gotMiss := true, n := { c.n with inhibitWrite := false } } := by
        simp only [h0, cleanMiss, hbusy]
        rfl
      rw [settle_of_miss hg (by rw [h1]) (by rw [h1]; exact hb.p2Accept), h1, Steps,
        writeEntry_keep (fill_active hs) hw (by exact hb.markInvalid), hb.n]
      exact Step.stall hs hg hu hh false s.regs.reloadIssue

end Port1

/-- A port-1 result that stays in `ACTIVE` and leaves the registers to the next stages. -/
structure Soft (s : L1d) (i : Input) (c : Comb) : Prop where
  proto : c.n.proto = s.regs.proto.tick i
  markInvalid : c.markInvalid = false
  gotMiss : c.gotMiss = false
  p2Accept : c.p2Accept = false

theorem Base.soft (h : Base s i c) : Soft s i c :=
  ⟨by rw [h.n]; rfl, h.markInvalid, h.gotMiss, h.p2Accept⟩

theorem fires_none (s : L1d) (i : Input) : Fires s i none := by
  intro e he
  cases he

/-- The head of the miss queue fires or waits. -/
theorem Soft.mqHead (h : Soft s i c) :
    ∃ f, Fires s i f ∧ (mqHead g s i c).n.proto = (s.regs.proto.tick i).fire g f ∧
      (mqHead g s i c).markInvalid = false ∧ (mqHead g s i c).p2Accept = false := by
  have hc := mqHead_cases g s i c
  generalize L1d.mqHead g s i c = c' at hc
  cases hc with
  | keep => exact ⟨none, fires_none s i, h.proto, h.markInvalid, h.p2Accept⟩
  | drop => exact ⟨none, fires_none s i, h.proto, h.markInvalid, h.p2Accept⟩
  | fire e tl rd hm hg hp hb =>
    refine ⟨some e, ?_, ?_, h.markInvalid, h.p2Accept⟩
    · intro e' he'
      cases he'
      exact ⟨by rw [hm]; rfl, hp, hb⟩
    · have hl : c.n.lastWr = false := congrArg Proto.lastWr h.proto
      have hl' : (if e.req.commit = true then true else c.n.lastWr) = e.req.commit := by
        rw [hl]
        cases e.req.commit <;> rfl
      rw [Proto.fire, ← h.proto]
      simp only [hl']
      rfl

theorem Soft.mqHead_nil (h : s.mq = []) : L1d.mqHead g s i c = c := by
  rw [L1d.mqHead, h]

/-- A flush starts. -/
theorem Soft.startFlush (h : Soft s i c) (hs : s.regs.state = .active)
    (hd : drained s i = true) {P : Comb → Prop}
    (h0 : P c)
    (h1 : ∀ c', Step g s i c'.n.proto s.arr → c'.markInvalid = false →
      c'.p2Accept = false → P c') : P (startFlush g s i c) := by
  have hpend : c.n.pend = s.regs.pend.latch i := congrArg Proto.pend h.proto
  have hreq : c.n.memReq = s.regs.memReq := congrArg Proto.memReq h.proto
  unfold L1d.startFlush
  dsimp only
  rw [hd]
  simp only [Bool.and_true]
  by_cases hp1 : s.regs.pend.cache = true
  · rw [if_pos hp1, hpend, hreq]
    refine h1 _ ?_ h.markInvalid h.p2Accept
    have := Step.startCache (g := g) hs hd hp1
    rw [← h.proto] at this
    exact this
  rw [if_neg hp1]
  by_cases hp2 : s.regs.pend.cl = true
  · rw [if_pos hp2, hpend]
    refine h1 _ ?_ h.markInvalid h.p2Accept
    have := Step.startCl (g := g) hs hd hp2
    rw [← h.proto] at this
    exact this
  rw [if_neg hp2]
  by_cases hp3 : s.regs.pend.pg = true
  · rw [if_pos hp3, hpend]
    refine h1 _ ?_ h.markInvalid h.p2Accept
    have := Step.startPg (g := g) hs hd hp3
    rw [← h.proto] at this
    exact this
  rw [if_neg hp3]
  by_cases hp4 : s.regs.pend.dma = true
  · rw [if_pos hp4, hpend]
    refine h1 _ ?_ h.markInvalid h.p2Accept
    have := Step.startDma (g := g) hs hd hp4
    rw [← h.proto] at this
    exact this
  rw [if_neg hp4]
  exact h0

theorem Soft.state (h : Soft s i c) : c.n.state = s.regs.state := congrArg Proto.state h.proto

/-- The stages after port 1, when the request on it does not leave `ACTIVE`.  `A` is the
array after the cycle. -/
theorem Soft.steps (h : Soft s i c) (hs : s.regs.state = .active)
    {A : Nat → L1dEntry} (hA : ∀ c', c'.markInvalid = false → writeEntry g s i c' = A)
    (hA' : s.regs.gotReq = false → A = s.arr)
    (hrun : ∀ f b, Fires s i f → Accepts s i b →
      Step g s i (((s.regs.proto.tick i).fire g f).accept g i b) A)
    {c₀ : Comb} (hpc : port1 g s i c₀ = c) :
    Steps g s i (settle g s i (active g s i c₀)) := by
  obtain ⟨f, hf, hn, hm, ha⟩ := h.mqHead (g := g)
  unfold active
  dsimp only
  rw [hpc]
  by_cases hp : prbPend s.regs i = true
  · rw [if_pos hp]
    have hf' : f = none := by
      cases f with
      | none => rfl
      | some e => exact absurd hp (by simp [(hf e rfl).2.1])
    subst hf'
    have hidx : (L1d.mqHead g s i c).n.cacheIdx = 0 := congrArg Proto.cacheIdx hn
    by_cases ht : (prbPend s.regs i && !s.regs.gotReq && !s.regs.gotReq2 && !i.memRspValid &&
        (L1d.mqHead g s i c).n.state == s.regs.state && prbOkState s.regs) = true
    · rw [settle, takeProbe, if_pos ht, acceptPort2_of_not (by exact ha), Steps,
        hA _ (by exact hm)]
      simp only [Bool.and_eq_true, Bool.not_eq_true'] at ht
      obtain ⟨⟨⟨⟨⟨h1, h2⟩, h3⟩, h4⟩, -⟩, h6⟩ := ht
      rw [hA' h2]
      have hstep := Step.takeProbe (g := g) h1 h2 h3 h4 h6
      have hw : waitIdx s.regs = (L1d.mqHead g s i c).n.cacheIdx := by
        rw [hidx, waitIdx, hs]
      rw [hw] at hstep
      have hn' : s.regs.proto.tick i = (L1d.mqHead g s i c).n.proto := hn.symm
      rw [hn'] at hstep
      exact hstep
    · rw [settle, takeProbe, if_neg ht, acceptPort2_of_not ha, Steps, hA _ hm, hn]
      exact hrun none false hf (fun h => by cases h)
  rw [if_neg hp]
  have hp' : prbPend s.regs i = false := by simpa using hp
  split
  case isTrue hacc =>
    rw [settle, prbPend_false_of hp' _ _ rfl]
    simp only [Bool.and_eq_true] at hacc
    have hb : Accepts s i true := by
      intro _
      have h2 := hacc.2
      simp only [p2Ok, Bool.and_eq_true] at h2
      exact ⟨h2.1.1.1.1.1, hp'⟩
    have hstep := hrun f true hf hb
    rw [← hn] at hstep
    rw [acceptPort2, if_pos rfl, Steps, hA _ (by exact hm)]
    exact hstep
  case isFalse hacc =>
    have hkeep : Steps g s i (settle g s i (L1d.mqHead g s i c)) := by
      rw [settle, prbPend_false_of hp' _ _ rfl, acceptPort2_of_not ha, Steps, hA _ hm, hn]
      exact hrun f false hf (fun h => by cases h)
    by_cases hd : drained s i = true
    · have hd' := hd
      simp only [drained, Bool.and_eq_true, Bool.not_eq_true', List.isEmpty_iff] at hd'
      rw [Soft.mqHead_nil hd'.1.1.1.1] at hkeep ⊢
      refine h.startFlush (P := fun c' => Steps g s i (settle g s i c')) hs hd hkeep fun c' hc' hm' ha' => ?_
      rw [settle, prbPend_false_of hp' _ _ rfl, acceptPort2_of_not ha', Steps, hA _ hm',
        hA' hd'.1.1.2]
      exact hc'
    · rw [startFlush_of_not (by simpa using hd)]
      exact hkeep

/-- The direct fill of port 2 is all the cycle does. -/
theorem steps_directFill (hp : Pipe g s) (hf : directFillOk g s i = true)
    (hb : s.regs.req2.badAddr = false) (hc : s.regs.req2.commit = false) :
    Steps g s i (settle g s i (active g s i (directFill g s i (combDefault s i)))) := by
  obtain ⟨hs, hg2, hg, hm, hl, hh, hd, hx, -, -, -⟩ := directFillOk_iff hf
  have h1 : port1 g s i (directFill g s i (combDefault s i)) =
      directFill g s i (combDefault s i) := by
    simp [port1, hg]
  have h2 : active g s i (directFill g s i (combDefault s i)) =
      directFill g s i (combDefault s i) := by
    unfold active
    simp only [h1, Soft.mqHead_nil hm, startFlush_of_not (drained_of_gotReq2 hg2)]
    rw [if_neg (c := (_ && _) = true) (by simp [directFill, send])]
    exact ite_self _
  have hw : wrArray s.regs s.out = false := wrArray_of_noReq hg
  have harr : s.out2 = s.arr (g.l1Idx s.regs.req2.line) := by
    rw [hp.fresh2 hg2 hs hl, hx]
  rw [h2, settle, takeProbe_of_state (.inl (by simp [directFill, send, hs])),
    acceptPort2_of_not rfl, Steps, writeEntry_keep (fill_active hs) hw rfl]
  refine Step.directFill hs hg2 hf hg hb hc ?_ ?_
  · intro hv
    rw [← harr] at hv ⊢
    simpa [hv] using hd
  · rintro ⟨hv, ht⟩
    rw [← harr] at hv ht
    simp [port2Hit, hv, ht] at hh

theorem steps_active (hp : Pipe g s) (hs : s.regs.state = .active)
    (hr : i.memRspValid = false) :
    Steps g s i (settle g s i (active g s i (port2 g s i (combDefault s i)))) := by
  rcases base_or_fill g s i with hb | ⟨hf, hb, hc, he⟩
  rotate_left
  · rw [he]
    exact steps_directFill hp hf hb hc
  generalize port2 g s i (combDefault s i) = c at hb
  by_cases hg : s.regs.gotReq = true
  rotate_left
  · have hg' : s.regs.gotReq = false := by simpa using hg
    have hw : wrArray s.regs s.out = false := wrArray_of_noReq hg'
    refine hb.soft.steps hs (A := s.arr) (fun c' hc' => writeEntry_keep (fill_active hs) hw hc')
      (fun _ => rfl) (fun f b hf hb' => ?_) (by simp [port1, hg'])
    exact Step.run hs (by simp [performs, hw]) f hf b hb'
  by_cases hc : s.regs.req.isChop = true
  · exact steps_chop hp hs hg hr hb hc
  have hc' : s.regs.req.isChop = false := by simpa using hc
  by_cases hu : s.regs.req.cached = true
  rotate_left
  · have hu' : s.regs.req.cached = false := by simpa using hu
    by_cases hd : (!s.regs.req.isStore && i.drainDsComplete && i.dead) = true
    rotate_left
    · exact steps_uncached hp hs hg hr hb hc' hu' (by simpa using hd)
    -- a dead uncached load is answered without an access
    have hst : CoreReq.storeOp s.regs.req.op = false := by
      simp only [Bool.and_eq_true, Bool.not_eq_true'] at hd
      have hk := hp.req.2.isStore
      rw [hd.1.1, hc', Bool.or_false] at hk
      exact hk.symm
    have hw : wrArray s.regs s.out = false := by simp [wrArray, hst]
    have hsoft : Soft s i
        { c with n := { c.n with rspValid := true, rspLine := tData s.regs s.out i } } :=
      ⟨hb.soft.proto, hb.markInvalid, hb.gotMiss, hb.p2Accept⟩
    refine hsoft.steps hs (fun c' hc' => writeEntry_keep (fill_active hs) hw hc') (fun _ => rfl)
      (fun f b hf hb' => Step.run hs (by simp [performs, hw]) f hf b hb') ?_
    simp only [Bool.and_eq_true, Bool.not_eq_true'] at hd
    simp [port1, hg, hc', hu', hd.1.1, hd.1.2, hd.2]
  by_cases hh : hits g s = true
  rotate_left
  · exact steps_miss hp hs hg hr hb hc' hu (by simpa using hh)
  have ht : tagHit s.regs s.out = true := by rw [tagHit_eq_hits hp hg, hh]
  have hpc : port1 g s i c = hitReq s i c := by
    simp [port1, hg, hc', hu, ht]
  have hsoft : Soft s i (hitReq s i c) := by
    have h := hb.soft.proto
    unfold hitReq
    split
    · exact ⟨h, hb.markInvalid, hb.gotMiss, hb.p2Accept⟩
    split
    · exact ⟨h, hb.markInvalid, hb.gotMiss, hb.p2Accept⟩
    · exact ⟨h, hb.markInvalid, hb.gotMiss, hb.p2Accept⟩
  by_cases hw : wrArray s.regs s.out = true
  · have hdata : tData s.regs s.out i = s.cur.data := by
      rw [tData_active hp hs hr, out_eq_cur hp hg]
    have ho : CoreReq.storeOp s.regs.req.op = true := by
      simp only [wrArray, Bool.and_eq_true] at hw
      exact hw.1.1.1
    refine hsoft.steps hs (fun c' hc' => writeEntry_store hr hw hc' hdata)
      (fun h => absurd hg (by simp [h])) (fun f b hf hb' => ?_) hpc
    exact Step.store hs hg (by simp [performs, hw, hu]) hu ho hh f hf b hb'
  · have hw' : wrArray s.regs s.out = false := by simpa using hw
    refine hsoft.steps hs (fun c' hc' => writeEntry_keep (fill_active hs) hw' hc')
      (fun _ => rfl) (fun f b hf hb' => ?_) hpc
    exact Step.run hs (by simp [performs, hw']) f hf b hb'

/-! ## The other states -/

theorem Pipe.gotReq_of (hp : Pipe g s) (hs : s.regs.state ≠ .active) : s.regs.gotReq = false := by
  cases h : s.regs.gotReq
  · rfl
  · exact absurd (hp.got h).1 hs

/-- A waiting state without a reply goes on waiting, or takes a probe. -/
theorem steps_wait (hn : c.n.proto = { s.regs.proto.tick i with cacheIdx := waitIdx s.regs })
    (hm : c.markInvalid = false) (ha : c.p2Accept = false) (hr : i.memRspValid = false)
    (hg : s.regs.gotReq = false) (he : Expects s.regs) : Steps g s i (settle g s i c) := by
  have hf : fill s.regs i = false := by simp [fill, hr]
  have hw := wrArray_of_noReq hg
  have hidx : c.n.cacheIdx = waitIdx s.regs := congrArg Proto.cacheIdx hn
  by_cases ht : (prbPend s.regs i && !s.regs.gotReq && !s.regs.gotReq2 && !i.memRspValid &&
      c.n.state == s.regs.state && prbOkState s.regs) = true
  · rw [settle, takeProbe, if_pos ht, acceptPort2_of_not (by exact ha), Steps,
      writeEntry_keep hf hw (by exact hm)]
    simp only [Bool.and_eq_true, Bool.not_eq_true'] at ht
    obtain ⟨⟨⟨⟨⟨h1, h2⟩, h3⟩, h4⟩, -⟩, h6⟩ := ht
    have hstep := Step.takeProbe (g := g) h1 h2 h3 h4 h6
    have hn' : { s.regs.proto.tick i with
          prbSave := waitIdx s.regs, prbRet := s.regs.state, prbTag := g.l1Tag i.probeAddr
          cacheIdx := g.l1Set i.probeAddr i.probeColour, state := .probeChk } =
        { c.n.proto with
          prbSave := c.n.cacheIdx, prbRet := s.regs.state, prbTag := g.l1Tag i.probeAddr
          cacheIdx := g.l1Set i.probeAddr i.probeColour, state := .probeChk } := by
      rw [hn, hidx]
    rw [hn'] at hstep
    exact hstep
  · rw [settle, takeProbe, if_neg ht, acceptPort2_of_not ha, Steps, writeEntry_keep hf hw hm, hn]
    exact Step.wait he hr false (fun h => by cases h) (fun h => by cases h)

/-- A state that is left, or that takes no probe. -/
theorem settle_of_leave (h : c.n.state ≠ s.regs.state ∨ prbOkState s.regs = false)
    (ha : c.p2Accept = false) : settle g s i c = c := by
  rw [settle, takeProbe_of_state h, acceptPort2_of_not ha]

theorem steps_injectReload (hp : Pipe g s) (hs : s.regs.state = .injectReload) :
    Steps g s i
      (settle g s i (injectReload g s i (port2 g s i (combDefault s i)))) := by
  have hg := hp.gotReq_of (by simp [hs])
  have hw : wrArray s.regs s.out = false := wrArray_of_noReq hg
  have hb : Base s i (port2 g s i (combDefault s i)) := by
    rcases base_or_fill g s i with hb | ⟨hf, -⟩
    · exact hb
    · exact absurd (directFillOk_iff hf).1 (by simp [hs])
  generalize port2 g s i (combDefault s i) = c at hb
  have hn := hb.soft.proto
  unfold injectReload
  dsimp only
  by_cases hr : i.memRspValid = true
  · rw [if_pos hr]
    have hf : fill s.regs i = true := by simp [fill, hs, hr]
    have hstep := fun t ht ht' => Step.reload (g := g) (i := i) hs hr t ht ht'
    rw [← hn] at hstep
    by_cases hbp : fillBypass s.regs i = true
    · have hlw : s.regs.memReq.opcode = .lw := by
        simp only [fillBypass, Bool.and_eq_true, beq_iff_eq] at hbp
        exact hbp.1.1.2
      rw [if_pos hbp]
      have ht := hstep .active (.inl rfl) (fun h => absurd hlw h)
      by_cases hg2 : s.regs.gotReq2 = true
      · rw [if_pos hg2, settle_of_leave (.inl (by simp [hs])) (by exact hb.p2Accept), Steps,
          writeEntry_fill hf hw (by exact hb.markInvalid)]
        exact ht
      · rw [if_neg hg2, settle_of_leave (.inl (by simp [hs])) (by exact hb.p2Accept), Steps,
          writeEntry_fill hf hw (by exact hb.markInvalid)]
        exact ht
    · rw [if_neg hbp]
      by_cases hri : s.regs.reloadIssue = true
      · rw [if_pos hri, settle_of_leave (.inl (by simp [hs])) (by exact hb.p2Accept), Steps,
          writeEntry_fill hf hw (by exact hb.markInvalid)]
        exact hstep .handleReload (.inr ⟨rfl, hri⟩) (fun _ _ => rfl)
      · rw [if_neg hri, settle_of_leave (.inl (by simp [hs])) (by exact hb.p2Accept), Steps,
          writeEntry_fill hf hw (by exact hb.markInvalid)]
        exact hstep .active (.inl rfl) (fun _ h => absurd h hri)
  rw [if_neg hr]
  have hr' : i.memRspValid = false := by simpa using hr
  have hwi : waitIdx s.regs = 0 := by simp [waitIdx, hs]
  by_cases hacc : (p2Ok g s i && !i.coreReq.isAtomic && !prbPend s.regs i) = true
  · rw [if_pos hacc]
    simp only [Bool.and_eq_true, Bool.not_eq_true'] at hacc
    have hb' : Accepts s i true := by
      intro _
      have h2 := hacc.1.1
      simp only [p2Ok, Bool.and_eq_true] at h2
      exact ⟨h2.1.1.1.1.1, hacc.2⟩
    have hf : fill s.regs i = false := by simp [fill, hr']
    have hstep := Step.wait (g := g) (.inl (by rw [hs]; rfl)) hr' true hb' (fun _ => hs)
    have hn' : { s.regs.proto.tick i with cacheIdx := waitIdx s.regs } = c.n.proto := by
      rw [hwi, hn]
      rfl
    rw [hn'] at hstep
    rw [settle, prbPend_false_of hacc.2 _ _ rfl, acceptPort2, if_pos rfl, Steps,
      writeEntry_keep hf hw (by exact hb.markInvalid)]
    exact hstep
  · rw [if_neg hacc]
    refine steps_wait ?_ hb.markInvalid hb.p2Accept hr' hg (.inl (by rw [hs]; rfl))
    rw [hwi, hn]
    rfl

/-- Only `ACTIVE` and `INJECT_RELOAD` look at port 2. -/
theorem port2_of_state (h1 : s.regs.state ≠ .active) (h2 : s.regs.state ≠ .injectReload) :
    port2 g s i c = c := by
  simp [port2, h1, h2]

section Other

variable (hp : Pipe g s) (h1 : s.regs.state ≠ .active) (h2 : s.regs.state ≠ .injectReload)

include hp h1 h2 in
theorem writes_other {b : Bool} (hm : c.markInvalid = b) :
    writeEntry g s i c = if b then s.dropCur else s.arr :=
  writeEntry_mark (fill_of_state h2) (wrArray_of_noReq (hp.gotReq_of h1)) hm

include hp h1 h2 in
/-- A step of a state that is left, or that takes no probe. -/
theorem steps_leave (h : c.n.state ≠ s.regs.state ∨ prbOkState s.regs = false)
    (ha : c.p2Accept = false) {b : Bool} (hm : c.markInvalid = b)
    (hstep : Step g s i c.n.proto (if b then s.dropCur else s.arr)) :
    Steps g s i (settle g s i c) := by
  rw [settle_of_leave h ha, Steps, writes_other hp h1 h2 hm]
  exact hstep

end Other

theorem tData_other (hf : s.regs.state ≠ .injectUncacheLoad) (h2 : s.regs.state ≠ .injectReload)
    (hp : Pipe g s) : tData s.regs s.out i = s.out.data := by
  simp [tData, fillBypass, fill, hf, h2, hp.forward]

theorem steps_flushCl (hp : Pipe g s) (hs : s.regs.state = .flushCl) :
    Steps g s i (settle g s i (flushCl g s i (combDefault s i))) := by
  have ho : s.out = s.cur := hp.look (.inl hs)
  have hok : prbOkState s.regs = false := by rw [prbOkState, hs]
  have hd : tData s.regs s.out i = s.cur.data := by
    rw [tData_other (by simp [hs]) (by simp [hs]) hp, ho]
  unfold flushCl
  dsimp only
  by_cases hv : (s.regs.clIsDma || i.flushClInval) = true
  · rw [if_pos hv]
    refine steps_leave hp (by simp [hs]) (by simp [hs]) (.inr hok) rfl rfl ?_
    have h := Step.flushClInvl (g := g) hs hv
    rw [← ho] at h
    exact h
  rw [if_neg hv]
  have hv' : (s.regs.clIsDma || i.flushClInval) = false := by simpa using hv
  by_cases hdd : s.out.dirty = true
  · rw [if_pos hdd]
    refine steps_leave hp (by simp [hs]) (by simp [hs]) (.inr hok) rfl rfl ?_
    have h := Step.flushClWb (g := g) hs (ho ▸ hdd) hv'
    rw [send, victimLine, hd, ho]
    exact h
  · rw [if_neg hdd]
    refine steps_leave hp (by simp [hs]) (by simp [hs]) (.inr hok) rfl rfl ?_
    exact Step.flushClClean hs (by simpa [← ho] using hdd) hv'

theorem steps_flushPg (hp : Pipe g s) (hs : s.regs.state = .flushPg) :
    Steps g s i (settle g s i (flushPg g s i (combDefault s i))) := by
  have ho : s.out = s.cur := hp.look (.inr (.inl hs))
  have hok : prbOkState s.regs = false := by rw [prbOkState, hs]
  have hd : tData s.regs s.out i = s.cur.data := by
    rw [tData_other (by simp [hs]) (by simp [hs]) hp, ho]
  unfold flushPg
  dsimp only
  rw [hd, ho]
  by_cases hw : (!i.flushClInval && (s.cur.valid && s.cur.tag == g.l1Tag (pgLine g s.regs i)) &&
      s.cur.dirty) = true
  · rw [if_pos hw]
    refine steps_leave hp (by simp [hs]) (by simp [hs]) (.inr hok) rfl rfl ?_
    rw [Bool.and_eq_true, Bool.and_eq_true, Bool.not_eq_true'] at hw
    have h := Step.flushPgWb (g := g) hs hw.1.1 hw.1.2 hw.2
    have hm : (s.cur.valid && s.cur.tag == g.l1Tag (pgLine g s.regs i)) = true := hw.1.2
    rw [hm]
    exact h
  · rw [if_neg hw]
    refine steps_leave hp (by simp [hs]) (by simp [hs]) (.inr hok) rfl rfl ?_
    refine Step.flushPgDrop hs _ rfl ?_
    grind

theorem steps_flushCache (hp : Pipe g s) (hs : s.regs.state = .flushCache) :
    Steps g s i (settle g s i (flushCache g s i (combDefault s i))) := by
  have ho : s.out = s.cur := hp.look (.inr (.inr (.inl hs)))
  have hok : prbOkState s.regs = false := by rw [prbOkState, hs]
  have hd : tData s.regs s.out i = s.cur.data := by
    rw [tData_other (by simp [hs]) (by simp [hs]) hp, ho]
  unfold flushCache
  dsimp only
  by_cases hdd : s.out.dirty = true
  · rw [if_pos hdd]
    refine steps_leave hp (by simp [hs]) (by simp [hs]) (.inr hok) rfl rfl ?_
    have h := Step.flushDirty (g := g) (i := i) hs (ho ▸ hdd) _ rfl
    rw [send, victimLine, hd, ho]
    exact h
  rw [if_neg hdd]
  have hdd' : s.cur.dirty = false := by simpa [← ho] using hdd
  by_cases hx : s.regs.cacheIdx = g.l1Sets - 1
  · rw [if_pos hx]
    refine steps_leave hp (by simp [hs]) (by simp [hs]) (.inr hok) rfl rfl ?_
    exact Step.flushCleanLast hs hdd' hx
  · rw [if_neg hx]
    refine steps_leave hp (by simp [hs]) (by simp [hs]) (.inr hok) rfl rfl ?_
    exact Step.flushClean hs hdd' hx

theorem steps_probeChk (hp : Pipe g s) (hs : s.regs.state = .probeChk) :
    Steps g s i (settle g s i (probeChk s i (combDefault s i))) := by
  have ho : s.out = s.cur := hp.look (.inr (.inr (.inr hs)))
  refine steps_leave hp (by simp [hs]) (by simp [hs]) (.inr (by rw [prbOkState, hs])) rfl rfl ?_
  have h := Step.probeChk (g := g) (i := i) hs _ _ rfl rfl
  rw [← ho] at h
  exact h

theorem steps_flushPgWait (hp : Pipe g s) (hs : s.regs.state = .flushPgWait) :
    Steps g s i (settle g s i (flushPgWait g s.regs i (combDefault s i))) := by
  unfold flushPgWait
  dsimp only
  by_cases hr : i.memRspValid = true
  · rw [if_pos hr]
    by_cases hx : s.regs.pgOff = g.pgLines - 1
    · rw [if_pos hx]
      refine steps_leave hp (by simp [hs]) (by simp [hs]) (.inl (by simp [hs])) rfl rfl ?_
      exact Step.flushPgLast hs hr hx
    · rw [if_neg hx]
      refine steps_leave hp (by simp [hs]) (by simp [hs]) (.inl (by simp [hs])) rfl rfl ?_
      exact Step.flushPgNext hs hr hx
  · rw [if_neg hr]
    refine steps_wait ?_ rfl rfl (by simpa using hr) (hp.gotReq_of (by simp [hs]))
      (.inl (by rw [hs]; rfl))
    rw [waitIdx, hs]
    rfl

theorem steps_flushClWait (hp : Pipe g s) (hs : s.regs.state = .flushClWait) :
    Steps g s i (settle g s i (flushClWait s.regs i (combDefault s i))) := by
  unfold flushClWait
  dsimp only
  by_cases hr : i.memRspValid = true
  · rw [if_pos hr]
    have h := fun a f d ha hd hf => Step.flushClDone (g := g) hs hr a f d ha hd hf
    by_cases hc : s.regs.clIsDma = true
    · rw [if_pos hc]
      refine steps_leave hp (by simp [hs]) (by simp [hs]) (.inl (by simp [hs])) rfl rfl ?_
      exact h true false false hc.symm rfl (by simp [hc])
    have hc' : s.regs.clIsDma = false := by simpa using hc
    rw [if_neg hc]
    have h' := fun f hf => h false f s.regs.clIsDma hc'.symm hc' hf
    by_cases hw : s.regs.chopWait = true
    · rw [if_pos hw]
      refine steps_leave hp (by simp [hs]) (by simp [hs]) (.inl (by simp [hs])) rfl rfl ?_
      exact h' false (by simp [hw])
    · rw [if_neg hw]
      refine steps_leave hp (by simp [hs]) (by simp [hs]) (.inl (by simp [hs])) rfl rfl ?_
      exact h' true (by simp [hw, hc'])
  · rw [if_neg hr]
    refine steps_wait ?_ rfl rfl (by simpa using hr) (hp.gotReq_of (by simp [hs]))
      (.inl (by rw [hs]; rfl))
    rw [waitIdx, hs]
    rfl

/-- Every clock edge is one of the listed steps. -/
theorem step_next (hp : Pipe g s) (he : i.memRspValid = true → Expects s.regs) :
    Step g s i (s.next g i).regs.proto (s.next g i).arr := by
  change Steps g s i (settle g s i (combState g s i (port2 g s i (combDefault s i))))
  by_cases h1 : s.regs.state = .active
  · have hr : i.memRspValid = false := by
      cases hr : i.memRspValid
      · rfl
      · rcases he hr with h | h
        · simp [h1, waiting] at h
        · simp [h1] at h
    simp only [combState, h1]
    exact steps_active hp h1 hr
  by_cases h2 : s.regs.state = .injectReload
  · simp only [combState, h2]
    exact steps_injectReload hp h2
  rw [port2_of_state h1 h2]
  cases hs : s.regs.state with
  | active => exact absurd hs h1
  | injectReload => exact absurd hs h2
  | waitInjectReload => exact absurd hs hp.state
  | init =>
    simp only [combState, hs]
    exact steps_leave hp h1 h2 (.inr (by rw [prbOkState, hs])) rfl rfl (Step.init hs)
  | initCache =>
    simp only [combState, hs]
    by_cases hx : s.regs.cacheIdx = g.l1Sets - 1
    · rw [if_pos hx]
      exact steps_leave hp h1 h2 (.inr (by rw [prbOkState, hs])) rfl rfl
        (Step.initCacheLast hs hx)
    · rw [if_neg hx]
      exact steps_leave hp h1 h2 (.inr (by rw [prbOkState, hs])) rfl rfl (Step.initCache hs hx)
  | probeChk =>
    simp only [combState, hs]
    exact steps_probeChk hp hs
  | flushCl =>
    simp only [combState, hs]
    exact steps_flushCl hp hs
  | flushClWait =>
    simp only [combState, hs]
    exact steps_flushClWait hp hs
  | flushPg =>
    simp only [combState, hs]
    exact steps_flushPg hp hs
  | flushPgWait =>
    simp only [combState, hs]
    exact steps_flushPgWait hp hs
  | flushCache =>
    simp only [combState, hs]
    exact steps_flushCache hp hs
  | handleReload =>
    simp only [combState, hs]
    exact steps_leave hp h1 h2 (.inl (by simp [refire, hs])) rfl rfl (Step.handleReload hs)
  | injectUncacheStore =>
    simp only [combState, hs]
    by_cases hr : i.memRspValid = true
    · rw [if_pos hr]
      exact steps_leave hp h1 h2 (.inl (by simp [hs])) rfl rfl (Step.uncacheDone (.inl hs) hr)
    · rw [if_neg hr]
      exact steps_wait (by rw [waitIdx, hs]; rfl) rfl rfl (by simpa using hr)
        (hp.gotReq_of h1) (.inl (by rw [hs]; rfl))
  | injectUncacheLoad =>
    simp only [combState, hs]
    by_cases hr : i.memRspValid = true
    · rw [if_pos hr]
      exact steps_leave hp h1 h2 (.inl (by simp [hs])) rfl rfl (Step.uncacheDone (.inr hs) hr)
    · rw [if_neg hr]
      exact steps_wait (by rw [waitIdx, hs]; rfl) rfl rfl (by simpa using hr)
        (hp.gotReq_of h1) (.inl (by rw [hs]; rfl))
  | uncacheWb =>
    simp only [combState, hs]
    by_cases hr : (!s.regs.uncacheWbDirty || i.memRspValid) = true
    · rw [if_pos hr]
      exact steps_leave hp h1 h2 (.inl (by simp [refire, hs])) rfl rfl
        (Step.uncacheWbDone hs (by simpa using hr))
    · rw [if_neg hr]
      have hr' : s.regs.uncacheWbDirty = true ∧ i.memRspValid = false := by simpa using hr
      exact steps_wait (by rw [waitIdx, hs]; rfl) rfl rfl hr'.2
        (hp.gotReq_of h1) (.inr ⟨hs, hr'.1⟩)
  | flushCacheWait =>
    simp only [combState, hs]
    by_cases hr : i.memRspValid = true
    · rw [if_pos hr]
      exact steps_leave hp h1 h2 (.inl (by simp [hs])) rfl rfl (Step.flushNext hs hr)
    · rw [if_neg hr]
      exact steps_wait (by rw [waitIdx, hs]; rfl) rfl rfl (by simpa using hr)
        (hp.gotReq_of h1) (.inl (by rw [hs]; rfl))
  | flushCacheLastWait =>
    simp only [combState, hs]
    by_cases hr : i.memRspValid = true
    · rw [if_pos hr]
      exact steps_leave hp h1 h2 (.inl (by simp [hs])) rfl rfl (Step.flushLast hs hr)
    · rw [if_neg hr]
      exact steps_wait (by rw [waitIdx, hs]; rfl) rfl rfl (by simpa using hr)
        (hp.gotReq_of h1) (.inl (by rw [hs]; rfl))

end StepNext

end L1d

end R9999
