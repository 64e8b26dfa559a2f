import R9999.L1d.Lanes

/-!
# The L1 data cache

A cycle-accurate model of the memory side of `l1d.sv`: a virtually indexed, physically
tagged, write-back cache with two read ports and one write port.

A core request is taken on port 2 (`req2`), translated, and in the next cycle either
answered, or queued in the miss queue, or (`directFill`) turned into a fill at once.  The
head of the miss queue makes a second pass on port 1 (`req`), where a hit is performed
and a miss talks to the L2: a dirty victim is written back (`MEM_SW`), the line is fetched
(`MEM_LW`), an uncached access is sent as it is.  CACHE hit ops, the line, page and
whole-cache flushes and the invalidates of the DMA engine share the same request
registers.  Whenever the L1D only waits, it can answer a probe of the L2 (`PROBE_CHK`).

`L1d.comb` computes the next value of every register, one definition per state;
`L1d.next` is the clock edge, with the RAM writes and the miss queue.

The TLB, the LSU's store-buffer compare, the ROB-head tests and the in-flight counters
are inputs, so nothing below depends on how they decide.  The answers to the core are
left out but for the line a port-1 answer takes its bytes from; the statistics, the link
register and the debug copies are left out altogether.
-/

namespace R9999

/-- One set of the L1D. -/
structure L1dEntry where
  valid : Bool
  dirty : Bool
  tag : Nat
  data : Line

namespace L1d

/-- `state_t`. -/
inductive State where
  | init | initCache | active | injectReload | waitInjectReload | flushCache
  | flushCacheWait | flushCacheLastWait | flushCl | flushClWait | handleReload
  | injectUncacheStore | injectUncacheLoad | uncacheWb | flushPg | flushPgWait | probeChk
  deriving DecidableEq, Repr

/-- The request registers to the L2 (`r_mem_req_*`); `idx` is the set of the line. -/
structure MemReq where
  addr : LineAddr
  idx : Nat
  storeData : Line
  opcode : MemOp
  cacheable : Bool
  mask : Mask

/-- An entry of the miss queue, with the set its line lives in. -/
structure MqEntry where
  req : CoreReq
  idx : Nat
  mask : Mask

/-- A slot of the LSU's store buffer (`r_sb_*`). -/
structure SbSlot where
  line : LineAddr
  idx : Nat
  op : MemOp
  off : Fin 16
  cached : Bool
  scOk : Bool
  data : BitVec 64

/-- The latched flush requests: `r_flush_req`, `r_flush_cl_req`, `r_flush_pg_req` and
`r_dma_inval_req`. -/
structure FlushPend where
  cache : Bool
  cl : Bool
  pg : Bool
  dma : Bool
  deriving DecidableEq

/-- The registers of the L1D. -/
structure Regs where
  state : State
  cacheIdx : Nat
  cacheTag : Nat
  rrCacheIdx : Nat
  gotReq : Bool
  lastWr : Bool
  rrLastWr : Bool
  isRetry : Bool
  didReload : Bool
  mustForward : Bool
  arrayWrData : Line
  req : CoreReq
  reqIdx : Nat
  gotReq2 : Bool
  req2 : CoreReq
  cacheIdx2 : Nat
  lastWr2 : Bool
  hitBusyAddr : Bool
  hitBusyAddr2 : Bool
  fillConflict2 : Bool
  memReqValid : Bool
  memReq : MemReq
  inhibitWrite : Bool
  reloadIssue : Bool
  lockCache : Bool
  uncacheWbDirty : Bool
  chopWait : Bool
  clIsDma : Bool
  pend : FlushPend
  pgOff : Nat
  pgDirtyCnt : Nat
  flushComplete : Bool
  dmaInvalAck : Bool
  prbSeen : Bool
  prbAck : Bool
  prbDirty : Bool
  prbData : Line
  prbRet : State
  prbSave : Nat
  prbTag : Nat
  fillRspPend : Bool
  fillLine : Line
  rspValid : Bool
  rspLine : Line
  stDone : Bool

/-- The inputs of one cycle. -/
structure Input where
  /-- `core_mem_req_valid` and `core_mem_req`. -/
  coreReqValid : Bool
  coreReq : CoreReq
  /-- The accept conditions of port 2 that look outside the memory pipe:
  `w_uncachable_req`, `w_one_memop_ok` and the ROB's in-flight bits. -/
  p2Ready : Bool
  restartColor : Bool
  /-- The TLB's answer for the port-2 request; the page offset is not translated. -/
  tlbHit : Bool
  tlbValid : Bool
  tlbDirty : Bool
  tlbOor : Bool
  tlbCached : Bool
  tlbPpn : Nat
  matchLink2 : Bool
  /-- `t_sb_blk` and `t_sb_fwd`: the store-buffer compare of the port-2 request. -/
  sbBlk : Bool
  sbFwd : Bool
  sbDataValid : Bool
  sbDataIdx : Nat
  sbData : BitVec 64
  retiredPending : Bool
  drainDsComplete : Bool
  /-- `dead_rob_mask` at the port-1 request. -/
  dead : Bool
  /-- `w_req2_nonspec` and `w_mq_head_nonspec`. -/
  req2Nonspec : Bool
  mqHeadNonspec : Bool
  /-- `r_n_inflight == 0`. -/
  noneInflight : Bool
  flushReq : Bool
  flushClReq : Bool
  flushPgReq : Bool
  flushClAddr : LineAddr
  flushClInval : Bool
  dmaInvalReq : Bool
  dmaInvalAddr : LineAddr
  probeReq : Bool
  probeAddr : LineAddr
  probeColour : Nat
  memRspValid : Bool
  memRspBad : Bool
  memRspLoadData : Line

/-- The result of the combinational block: the next registers and the one-cycle
commands. -/
structure Comb where
  n : Regs
  markInvalid : Bool
  gotMiss : Bool
  gotRdRetry : Bool
  pushMiss : Bool
  popMq : Bool
  sbWr : Bool
  p2Accept : Bool

end L1d

/-- The L1D: its registers, its four RAMs (one entry per set) with their two registered
outputs, the miss queue and the store buffer. -/
structure L1d where
  regs : L1d.Regs
  arr : Nat → L1dEntry
  out : L1dEntry
  out2 : L1dEntry
  mq : List L1d.MqEntry
  sb : Nat → L1d.SbSlot

namespace L1d

variable (g : Geometry)

/-! ## The wires -/

/-- `w_cacheable_mem_rsp_valid`. -/
def fill (r : Regs) (i : Input) : Bool := r.state == .injectReload && i.memRspValid

/-- `w_fill_bypass`: the load that owns the fill takes its data from it. -/
def fillBypass (r : Regs) (i : Input) : Bool :=
  fill r i && r.memReq.opcode == .lw && r.req.lsuHold && !r.req.isStore

/-- `t_data`. -/
def tData (r : Regs) (out : L1dEntry) (i : Input) : Line :=
  if r.state == .injectUncacheLoad || fillBypass r i then i.memRspLoadData
  else if r.gotReq && r.mustForward then r.arrayWrData
  else out.data

/-- The tag compare of port 1. -/
def tagHit (r : Regs) (out : L1dEntry) : Bool := out.valid && out.tag == r.cacheTag

/-- `t_hit_cache`. -/
def hitCache (r : Regs) (out : L1dEntry) : Bool :=
  tagHit r out && r.gotReq && (r.state == .active || r.state == .injectReload)

/-- `t_wr_array`. -/
def wrArray (r : Regs) (out : L1dEntry) : Bool :=
  CoreReq.storeOp r.req.op && hitCache r out && (r.isRetry || r.didReload) && r.req.linked

/-- The flush requests with the pulses of the cycle latched. -/
def FlushPend.latch (p : FlushPend) (i : Input) : FlushPend :=
  ⟨p.cache || i.flushReq, p.cl || i.flushClReq, p.pg || i.flushPgReq, p.dma || i.dmaInvalReq⟩

/-- `t_prb_pend`. -/
def prbPend (r : Regs) (i : Input) : Bool := i.probeReq && !r.prbSeen

/-- `t_prb_ok_state`. -/
def prbOkState (r : Regs) : Bool :=
  match r.state with
  | .active | .injectReload | .injectUncacheStore | .injectUncacheLoad | .flushClWait
  | .flushCacheWait | .flushCacheLastWait | .flushPgWait => true
  | .uncacheWb => r.uncacheWbDirty
  | _ => false

/-- `w_l1d_drained`. -/
def drained (s : L1d) (i : Input) : Bool :=
  s.mq.isEmpty && i.noneInflight && !s.regs.gotReq && !s.regs.gotReq2 && !i.retiredPending

/-- `t_req_stale`. -/
def reqStale (i : Input) : Bool :=
  i.coreReqValid && !i.coreReq.commit && i.coreReq.restartId != i.restartColor

/-- `t_p2_ok`. -/
def p2Ok (s : L1d) (i : Input) : Bool :=
  i.coreReqValid && !reqStale i && decide (s.mq.length + 1 < g.mqEntries) &&
    !(s.regs.lastWr2 && s.regs.cacheIdx2 == g.l1Idx i.coreReq.line && !i.coreReq.isStore) &&
    i.p2Ready && (!i.coreReq.isAtomic || s.mq.isEmpty)

/-- `t_cm_block_stall`. -/
def cmBlockStall (r : Regs) (i : Input) : Bool :=
  r.gotReq && r.lastWr && r.cacheIdx == g.l1Idx i.coreReq.line && !(r.didReload || r.isRetry)

/-- `t_remapped_req2`: the port-2 request with its translated address. -/
def remappedReq2 (s : L1d) (i : Input) : CoreReq :=
  let q := s.regs.req2
  { q with
    line := i.tlbPpn * g.pgLines + q.line % g.pgLines
    cached := if q.mapped then i.tlbCached else q.cached
    mapped := false
    data :=
      if q.op == .lwl || q.op == .lwr || q.op == .ldl || q.op == .ldr then (s.sb q.lsuIdx).data
      else q.data }

/-- `t_mq_push_req` and `t_mq_push_idx`: a commit is rebuilt from its store-buffer
slot. -/
def mqPush (s : L1d) (i : Input) : MqEntry :=
  let q := s.regs.req2
  let e := s.sb q.lsuIdx
  let p :=
    if q.commit then
      { q with
        line := e.line, off := e.off, op := e.op, data := e.data, cached := e.cached
        scOk := e.scOk, mapped := false, isStore := true, badAddr := false }
    else remappedReq2 g s i
  { req := p
    idx := if q.commit then e.idx else g.l1Idx q.line
    mask := fun b => p.makeMask b && q.isStore }

/-! ## Port 2 -/

/-- `t_port2_hit_cache`. -/
def port2Hit (s : L1d) (i : Input) : Bool := s.out2.valid && s.out2.tag == i.tlbPpn

/-- `t_direct_fill_ok`. -/
def directFillOk (s : L1d) (i : Input) : Bool :=
  let r := s.regs
  r.state == .active && r.gotReq2 && !i.drainDsComplete && r.req2.lsuHold && !r.req2.isStore &&
    (remappedReq2 g s i).cached && !port2Hit s i && !r.hitBusyAddr2 && s.mq.isEmpty &&
    !r.gotReq && !r.rrLastWr && !r.lockCache && !(r.pend.latch i).cache &&
    !(r.pend.latch i).cl && !r.fillRspPend && !(s.out2.valid && s.out2.dirty) &&
    r.cacheIdx2 == g.l1Idx r.req2.line

/-- Send a request to the L2 and wait in `state`. -/
def send (q : MemReq) (state : State) (c : Comb) : Comb :=
  { c with n := { c.n with memReqValid := true, memReq := q, state := state } }

/-- The fill started from the port-2 miss. -/
def directFill (s : L1d) (i : Input) (c : Comb) : Comb :=
  let q := remappedReq2 g s i
  let c :=
    { c with
      n :=
        { c.n with
          req := q, reqIdx := g.l1Idx s.regs.req2.line, reloadIssue := true
          inhibitWrite := false, lockCache := false } }
  send
    { s.regs.memReq with
      addr := q.line, idx := g.l1Idx s.regs.req2.line, opcode := .lw, cacheable := true
      mask := Mask.full } .injectReload c

/-- What becomes of a request on port 2. -/
inductive Pass where
  /-- It is answered (or handed back to the LSU). -/
  | answer
  /-- A plain store's address pass: its slot of the store buffer is filled. -/
  | address
  /-- It is queued for port 1. -/
  | queue
  /-- It starts a fill. -/
  | fill
  deriving DecidableEq

/-- The port-2 pass of a request, arm by arm. -/
def pass2 (s : L1d) (i : Input) : Pass :=
  let r := s.regs
  let q := r.req2
  let cached := (remappedReq2 g s i).cached
  if q.commit then .queue
  else if i.drainDsComplete then .answer
  else if q.op == .mov || q.op == .tlbp then .answer
  else if q.badAddr || !i.tlbHit || !i.tlbValid then .answer
  else if q.isStore && !i.tlbDirty && !q.isChop then .answer
  else if i.tlbOor then .answer
  else if q.isStore && q.lsuHold && !q.isChop then .address
  else if q.lsuHold && !q.isStore && !cached && !i.req2Nonspec then .answer
  else if i.sbBlk then .answer
  else if i.sbFwd && q.lsuHold then .answer
  else if q.isChop then .queue
  else if port2Hit s i && !r.hitBusyAddr2 && !r.fillConflict2 && cached then .answer
  else if directFillOk g s i then .fill
  else .queue

/-- Port 2 works in `ACTIVE` and, under an outstanding fill, in `INJECT_RELOAD`. -/
def port2 (s : L1d) (i : Input) (c : Comb) : Comb :=
  if s.regs.gotReq2 && (s.regs.state == .active || s.regs.state == .injectReload) then
    match pass2 g s i with
    | .answer => c
    | .address => { c with sbWr := true }
    | .queue => { c with pushMiss := true }
    | .fill => directFill g s i c
  else c

/-! ## The state machine -/

/-- The values every signal has before the state is looked at. -/
def combDefault (s : L1d) (i : Input) : Comb :=
  let r := s.regs
  { n :=
      { r with
        cacheIdx := 0, cacheTag := 0, rrCacheIdx := r.cacheIdx, gotReq := false
        lastWr := false, rrLastWr := r.lastWr, isRetry := false, didReload := false
        gotReq2 := false, cacheIdx2 := 0, lastWr2 := false, memReqValid := false
        pend := r.pend.latch i
        flushComplete := false, dmaInvalAck := false, prbSeen := r.prbSeen && i.probeReq
        prbAck := false, fillRspPend := false, rspValid := r.fillRspPend
        rspLine := r.fillLine, stDone := false }
    markInvalid := false
    gotMiss := false
    gotRdRetry := false
    pushMiss := false
    popMq := false
    sbWr := false
    p2Accept := false }

/-- The line of the port-1 request, as a request to the L2. -/
def reqLine (r : Regs) (op : MemOp) : MemReq :=
  { r.memReq with
    addr := r.req.line, idx := r.reqIdx, opcode := op, cacheable := true, mask := Mask.full }

/-- The line read on port 1, with its data, as a request to the L2. -/
def victimLine (r : Regs) (out : L1dEntry) (i : Input) (op : MemOp) : MemReq where
  addr := g.l1Line out.tag r.cacheIdx
  idx := r.cacheIdx
  storeData := tData r out i
  opcode := op
  cacheable := true
  mask := Mask.full

/-- A CACHE hit op: write a dirty line through to DRAM, or drop any copy and have the L2
drop its own. -/
def chopReq (s : L1d) (i : Input) (c : Comb) : Comb :=
  let r := s.regs
  let c := { c with gotMiss := true, n := { c.n with chopWait := true } }
  if tagHit r s.out && s.out.dirty && r.req.op != .chinv then
    send (victimLine g r s.out i .wb) .flushClWait
      { c with markInvalid := true, n := { c.n with inhibitWrite := true } }
  else
    send (reqLine r .invl) .flushClWait { c with markInvalid := tagHit r s.out }

/-- An uncached access: push a resident copy out first, or send the access. -/
def uncachedReq (s : L1d) (i : Input) (c : Comb) : Comb :=
  let r := s.regs
  let c := { c with gotMiss := true }
  if tagHit r s.out then
    let c :=
      { c with
        markInvalid := true
        n := { c.n with uncacheWbDirty := s.out.dirty, state := .uncacheWb } }
    if s.out.dirty then
      send (victimLine g r s.out i .sw) .uncacheWb
        { c with n := { c.n with inhibitWrite := true } }
    else c
  else
    send
      { addr := r.req.line, idx := r.reqIdx, storeData := r.req.storeLine (tData r s.out i)
        opcode := if r.req.isStore then .sw else .lw, cacheable := false
        mask := r.req.uncStMask }
      (if r.req.isStore then .injectUncacheStore else .injectUncacheLoad) c

/-- A cached hit: a commit is done, a load is answered. -/
def hitReq (s : L1d) (i : Input) (c : Comb) : Comb :=
  if s.regs.req.commit then { c with n := { c.n with stDone := true } }
  else if s.regs.req.isStore then c
  else { c with n := { c.n with rspValid := true, rspLine := tData s.regs s.out i } }

/-- A write of the previous cycle went to the set being looked at. -/
def justWritten (r : Regs) : Bool := r.rrCacheIdx == r.cacheIdx && r.rrLastWr

/-- A miss over a dirty victim: write the victim back first. -/
def dirtyMiss (s : L1d) (i : Input) (c : Comb) : Comb :=
  let r := s.regs
  let c :=
    { c with gotMiss := true, n := { c.n with reloadIssue := true, inhibitWrite := true } }
  if (r.hitBusyAddr && r.isRetry) || !r.hitBusyAddr then
    let c := { c with n := { c.n with lockCache := true } }
    if justWritten r then
      { c with
        n :=
          { c.n with
            memReq := victimLine g r s.out i .sw, cacheIdx := r.cacheIdx
            state := .waitInjectReload } }
    else send (victimLine g r s.out i .sw) .injectReload c
  else c

/-- A miss over an invalid or clean victim: fetch the line. -/
def cleanMiss (s : L1d) (c : Comb) : Comb :=
  let r := s.regs
  let c := { c with gotMiss := true, n := { c.n with inhibitWrite := false } }
  if (r.hitBusyAddr && r.isRetry) || !r.hitBusyAddr || r.lockCache then
    let c := { c with n := { c.n with reloadIssue := true, cacheIdx := r.cacheIdx } }
    if justWritten r then
      { c with
        n :=
          { c.n with
            memReq :=
              { r.memReq with
                addr := g.l1Line s.out.tag r.cacheIdx, idx := r.cacheIdx, opcode := .sw
                cacheable := true, mask := Mask.full }
            lockCache := true, state := .waitInjectReload } }
    else send (reqLine r .lw) .injectReload { c with n := { c.n with lockCache := false } }
  else c

/-- The port-1 request in `ACTIVE`. -/
def port1 (s : L1d) (i : Input) (c : Comb) : Comb :=
  let r := s.regs
  if r.gotReq then
    if r.req.isChop then chopReq g s i c
    else if !r.req.cached && !r.req.isStore && i.drainDsComplete && i.dead then
      { c with n := { c.n with rspValid := true, rspLine := tData r s.out i } }
    else if !r.req.cached then uncachedReq g s i c
    else if tagHit r s.out then hitReq s i c
    else if s.out.valid && s.out.dirty then dirtyMiss g s i c
    else cleanMiss g s c
  else c

/-- Look a queued request up on port 1. -/
def firePort1 (e : MqEntry) (c : Comb) : Comb :=
  { c with
    popMq := true
    n :=
      { c.n with
        req := e.req, reqIdx := e.idx, cacheIdx := e.idx, cacheTag := g.l1Tag e.req.line
        gotReq := true, isRetry := true } }

/-- The head of the miss queue. -/
def mqHead (s : L1d) (i : Input) (c : Comb) : Comb :=
  match s.mq with
  | [] => c
  | e :: _ =>
      if !c.gotMiss && !s.regs.lockCache && !prbPend s.regs i &&
          !(s.regs.gotReq && s.regs.lastWr && s.regs.cacheIdx == e.idx) then
        if !e.req.commit && e.req.restartId != i.restartColor then { c with popMq := true }
        else if e.req.commit then
          let c := firePort1 g e c
          { c with n := { c.n with lastWr := true } }
        else if e.req.isChop then { firePort1 g e c with gotRdRetry := true }
        else if e.req.cached || i.mqHeadNonspec then
          { firePort1 g e c with gotRdRetry := true }
        else c
      else c

/-- The start of a flush in `ACTIVE`, by priority. -/
def startFlush (s : L1d) (i : Input) (c : Comb) : Comb :=
  let r := s.regs
  let p := c.n.pend
  if r.pend.cache && drained s i then
    { c with
      n :=
        { c.n with
          state := .flushCache, cacheIdx := 0, pend := { p with cache := false }
          memReq := { c.n.memReq with mask := Mask.full, cacheable := true } } }
  else if r.pend.cl && drained s i then
    { c with
      n :=
        { c.n with
          state := .flushCl, cacheIdx := g.l1Idx i.flushClAddr
          pend := { p with cl := false }, clIsDma := false } }
  else if r.pend.pg && drained s i then
    { c with
      n :=
        { c.n with
          state := .flushPg
          cacheIdx := g.l1Idx (i.flushClAddr / g.pgLines * g.pgLines)
          pend := { p with pg := false }, pgOff := 0 } }
  else if r.pend.dma && drained s i then
    { c with
      n :=
        { c.n with
          state := .flushCl, cacheIdx := g.l1Idx i.dmaInvalAddr
          pend := { p with dma := false }, clIsDma := true } }
  else c

/-- `ACTIVE`: the port-1 request, then the head of the miss queue, then a new request on
port 2 or the start of a flush. -/
def active (s : L1d) (i : Input) (c : Comb) : Comb :=
  let c := mqHead g s i (port1 g s i c)
  if prbPend s.regs i then c
  else if c.n.state == .active && !c.gotMiss && !c.gotRdRetry && !cmBlockStall g s.regs i &&
      p2Ok g s i then
    { c with p2Accept := true }
  else startFlush g s i c

/-- `PROBE_CHK`: drop the probed line, and answer with its data if it was dirty or if the
L1D's own writeback of it is outstanding. -/
def probeChk (s : L1d) (i : Input) (c : Comb) : Comb :=
  let r := s.regs
  let hit := s.out.valid && s.out.tag == r.prbTag
  let inTransit :=
    r.prbRet != .active && (r.memReq.opcode == .sw || r.memReq.opcode == .wb) &&
      r.memReq.addr == i.probeAddr
  { c with
    markInvalid := hit
    n :=
      { c.n with
        prbAck := true
        prbDirty := inTransit || (hit && s.out.dirty)
        prbData := if inTransit then r.memReq.storeData else s.out.data
        prbSeen := true
        cacheIdx := r.prbSave
        state := r.prbRet } }

/-- `INJECT_RELOAD`: wait for the fill or the victim's writeback, taking port-2 requests
meanwhile. -/
def injectReload (s : L1d) (i : Input) (c : Comb) : Comb :=
  let r := s.regs
  if i.memRspValid then
    let c := { c with n := { c.n with inhibitWrite := false, reloadIssue := false } }
    if fillBypass r i then
      if r.gotReq2 then
        { c with
          n := { c.n with fillRspPend := true, fillLine := tData r s.out i, state := .active } }
      else
        { c with
          n := { c.n with rspValid := true, rspLine := tData r s.out i, state := .active } }
    else
      { c with n := { c.n with state := if r.reloadIssue then .handleReload else .active } }
  else if p2Ok g s i && !i.coreReq.isAtomic && !prbPend r i then { c with p2Accept := true }
  else c

/-- Look the port-1 request up again. -/
def refire (r : Regs) (c : Comb) : Comb :=
  { c with
    n :=
      { c.n with
        gotReq := true, cacheIdx := r.reqIdx, cacheTag := g.l1Tag r.req.line
        state := .active } }

/-- `FLUSH_CL`: the line op of the core or of the DMA engine. -/
def flushCl (s : L1d) (i : Input) (c : Comb) : Comb :=
  let r := s.regs
  let addr := if r.clIsDma then i.dmaInvalAddr else i.flushClAddr
  if r.clIsDma || i.flushClInval then
    send
      { r.memReq with
        addr := addr, idx := g.l1Idx addr, opcode := .invl, cacheable := true
        mask := Mask.full } .flushClWait
      { c with markInvalid := s.out.valid && s.out.tag == g.l1Tag addr }
  else if s.out.dirty then
    send { victimLine g r s.out i .wb with mask := r.memReq.mask } .flushClWait
      { c with markInvalid := true, n := { c.n with inhibitWrite := true } }
  else
    { c with markInvalid := true, n := { c.n with flushComplete := true, state := .active } }

/-- `FLUSH_CL_WAIT`. -/
def flushClWait (r : Regs) (i : Input) (c : Comb) : Comb :=
  if i.memRspValid then
    let c :=
      { c with n := { c.n with inhibitWrite := false, chopWait := false, state := .active } }
    if r.clIsDma then { c with n := { c.n with dmaInvalAck := true, clIsDma := false } }
    else if r.chopWait then { c with n := { c.n with rspValid := true } }
    else { c with n := { c.n with flushComplete := true } }
  else c

/-- `w_pg_line`: the line of the walk. -/
def pgLine (r : Regs) (i : Input) : LineAddr := i.flushClAddr / g.pgLines * g.pgLines + r.pgOff

/-- `FLUSH_PG`: one line of a page walk. -/
def flushPg (s : L1d) (i : Input) (c : Comb) : Comb :=
  let r := s.regs
  let x := pgLine g r i
  let hit := s.out.valid && s.out.tag == g.l1Tag x
  let q : MemReq :=
    { r.memReq with addr := x, idx := g.l1Idx x, cacheable := true, mask := Mask.full }
  let c :=
    { c with
      markInvalid := hit
      n :=
        { c.n with
          cacheIdx := r.cacheIdx
          pgDirtyCnt :=
            if i.flushClInval && hit && s.out.dirty && r.pgDirtyCnt != 65535 then
              r.pgDirtyCnt + 1
            else r.pgDirtyCnt } }
  if !i.flushClInval && hit && s.out.dirty then
    send { q with opcode := .wb, storeData := tData r s.out i } .flushPgWait
      { c with n := { c.n with inhibitWrite := true } }
  else send { q with opcode := if i.flushClInval then .pgdrop else .invl } .flushPgWait c

/-- `FLUSH_PG_WAIT`. -/
def flushPgWait (r : Regs) (i : Input) (c : Comb) : Comb :=
  let c := { c with n := { c.n with cacheIdx := r.cacheIdx } }
  if i.memRspValid then
    let c :=
      { c with
        n :=
          { c.n with
            inhibitWrite := false
            pgDirtyCnt :=
              if i.flushClInval && (i.memRspLoadData 0).getLsbD 0 && r.pgDirtyCnt != 65535 then
                r.pgDirtyCnt + 1
              else r.pgDirtyCnt } }
    if r.pgOff = g.pgLines - 1 then
      { c with n := { c.n with flushComplete := true, state := .active } }
    else
      { c with
        n :=
          { c.n with
            pgOff := r.pgOff + 1
            cacheIdx := g.l1Idx (i.flushClAddr / g.pgLines * g.pgLines + (r.pgOff + 1))
            state := .flushPg } }
  else c

/-- The set after `idx`, in the index's own width. -/
def l1Succ (idx : Nat) : Nat := (idx + 1) % g.l1Sets

/-- `FLUSH_CACHE`: one set of the whole-cache walk. -/
def flushCache (s : L1d) (i : Input) (c : Comb) : Comb :=
  let r := s.regs
  let c := { c with markInvalid := true, n := { c.n with cacheIdx := l1Succ g r.cacheIdx } }
  let last := r.cacheIdx = g.l1Sets - 1
  if s.out.dirty then
    let q := victimLine g r s.out i .sw
    send { q with cacheable := r.memReq.cacheable, mask := r.memReq.mask }
      (if last then .flushCacheLastWait else .flushCacheWait)
      { c with n := { c.n with inhibitWrite := true } }
  else if last then
    { c with n := { c.n with state := .active, flushComplete := true } }
  else c

/-- The `case(r_state)` of the combinational block. -/
def combState (s : L1d) (i : Input) (c : Comb) : Comb :=
  let r := s.regs
  match r.state with
  | .init => { c with n := { c.n with state := .initCache, cacheIdx := 0 } }
  | .initCache =>
      let c := { c with n := { c.n with cacheIdx := l1Succ g r.cacheIdx } }
      if r.cacheIdx = g.l1Sets - 1 then
        { c with n := { c.n with state := .active, flushComplete := true } }
      else { c with markInvalid := true }
  | .active => active g s i c
  | .probeChk => probeChk s i c
  | .waitInjectReload =>
      send { r.memReq with storeData := tData r s.out i } .injectReload c
  | .injectReload => injectReload g s i c
  | .injectUncacheStore =>
      if i.memRspValid then
        { c with n := { c.n with state := .active, stDone := r.req.commit } }
      else c
  | .injectUncacheLoad =>
      if i.memRspValid then
        { c with
          n := { c.n with state := .active, rspValid := true, rspLine := tData r s.out i } }
      else c
  | .uncacheWb =>
      if !r.uncacheWbDirty || i.memRspValid then
        refire g r { c with n := { c.n with inhibitWrite := false, uncacheWbDirty := false } }
      else c
  | .handleReload =>
      refire g r { c with n := { c.n with lastWr := c.n.req.isStore, didReload := true } }
  | .flushCl => flushCl g s i c
  | .flushClWait => flushClWait r i c
  | .flushPg => flushPg g s i c
  | .flushPgWait => flushPgWait g r i c
  | .flushCache => flushCache g s i c
  | .flushCacheLastWait =>
      let c := { c with n := { c.n with cacheIdx := r.cacheIdx } }
      if i.memRspValid then
        { c with
          n := { c.n with state := .active, inhibitWrite := false, flushComplete := true } }
      else c
  | .flushCacheWait =>
      let c := { c with n := { c.n with cacheIdx := r.cacheIdx } }
      if i.memRspValid then
        { c with n := { c.n with state := .flushCache, inhibitWrite := false } }
      else c

/-- Take a pending probe when both port pipes are empty, no reply is arriving and the
state only waits.  The read the state wanted is saved for the return. -/
def takeProbe (r : Regs) (i : Input) (c : Comb) : Comb :=
  if prbPend r i && !r.gotReq && !r.gotReq2 && !i.memRspValid && c.n.state == r.state &&
      prbOkState r then
    { c with
      n :=
        { c.n with
          prbSave := c.n.cacheIdx
          prbRet := r.state
          prbTag := g.l1Tag i.probeAddr
          cacheIdx := g.l1Set i.probeAddr i.probeColour
          state := .probeChk } }
  else c

/-- The accepted request enters port 2. -/
def acceptPort2 (i : Input) (c : Comb) : Comb :=
  if c.p2Accept then
    { c with
      n :=
        { c.n with
          cacheIdx2 := g.l1Idx i.coreReq.line, req2 := i.coreReq, gotReq2 := true
          lastWr2 := i.coreReq.isStore && !i.coreReq.commit } }
  else c

/-- The combinational block. -/
def comb (s : L1d) (i : Input) : Comb :=
  acceptPort2 g i
    (takeProbe g s.regs i (combState g s i (port2 g s i (combDefault s i))))

/-! ## The clock edge -/

/-- The set `j` after the writes of the cycle to the tag, data, dirty and valid RAMs. -/
def writeEntry (s : L1d) (i : Input) (c : Comb) (j : Nat) : L1dEntry :=
  let r := s.regs
  let e := s.arr j
  let f := fill r i
  let w := wrArray r s.out
  let dataAddr := if i.memRspValid then r.memReq.idx else r.cacheIdx
  { valid :=
      if c.markInvalid then if j = r.cacheIdx then false else e.valid
      else if f then if j = r.memReq.idx then !r.inhibitWrite else e.valid
      else e.valid
    dirty :=
      if c.markInvalid then if j = r.cacheIdx then false else e.dirty
      else if f then if j = r.memReq.idx then false else e.dirty
      else if w then if j = r.cacheIdx then true else e.dirty
      else e.dirty
    tag := if f && j == r.memReq.idx then g.l1Tag r.memReq.addr else e.tag
    data :=
      if (f || w) && j == dataAddr then
        if i.memRspValid then i.memRspLoadData else r.req.storeLine (tData r s.out i)
      else e.data }

/-- The store buffer after the cycle: an address pass fills its slot, and the LSU sends
the data. -/
def sbNext (s : L1d) (i : Input) (c : Comb) : Nat → SbSlot :=
  let q := remappedReq2 g s i
  let sb :=
    if c.sbWr then
      Function.update s.sb s.regs.req2.lsuIdx
        { s.sb s.regs.req2.lsuIdx with
          line := q.line, idx := g.l1Idx s.regs.req2.line, op := q.op, off := q.off
          cached := q.cached, scOk := i.matchLink2 }
    else s.sb
  if i.sbDataValid then
    Function.update sb i.sbDataIdx { sb i.sbDataIdx with data := i.sbData }
  else sb

/-- One clock edge of the L1D. -/
def next (s : L1d) (i : Input) : L1d :=
  let c := comb g s i
  let mq := if c.popMq then s.mq.tail else s.mq
  let inPage (a b : Nat) : Bool := a % g.pgLines == b % g.pgLines
  { regs :=
      { c.n with
        mustForward :=
          c.popMq && s.regs.gotReq && s.regs.lastWr &&
            (s.mq.head?.map fun e => s.regs.cacheIdx == e.idx).getD false
        arrayWrData :=
          if i.memRspValid then i.memRspLoadData
          else s.regs.req.storeLine (tData s.regs s.out i)
        hitBusyAddr := mq.any fun e => inPage e.idx c.n.cacheIdx
        hitBusyAddr2 :=
          s.mq.any fun e =>
            inPage e.idx c.n.cacheIdx2 &&
              (List.finRange 16).any fun b => e.mask b && i.coreReq.makeMask b
        fillConflict2 :=
          c.n.gotReq2 && s.regs.state == .injectReload && c.n.cacheIdx2 == s.regs.memReq.idx }
    arr := writeEntry g s i c
    out := s.arr c.n.cacheIdx
    out2 := s.arr c.n.cacheIdx2
    mq := if c.pushMiss then mq ++ [mqPush g s i] else mq
    sb := sbNext g s i c }

/-! ## Reset -/

/-- A request register that has never been loaded. -/
def blankReq : CoreReq where
  op := .lb
  line := 0
  off := 0
  data := 0
  isStore := false
  commit := false
  cached := false
  mapped := false
  lsuHold := false
  isAtomic := false
  badAddr := false
  scOk := false
  restartId := false
  lsuIdx := 0

/-- A slot of the store buffer before its first use.  A store is only committed from a
slot that its address pass has filled, so what the slot held before does not matter. -/
def blankSlot : SbSlot where
  line := 0
  idx := 0
  op := .sb
  off := 0
  cached := false
  scOk := false
  data := 0

/-- The registers at the release of reset. -/
def resetRegs : Regs where
  state := .init
  cacheIdx := 0
  cacheTag := 0
  rrCacheIdx := 0
  gotReq := false
  lastWr := false
  rrLastWr := false
  isRetry := false
  didReload := false
  mustForward := false
  arrayWrData := Line.zero
  req := blankReq
  reqIdx := 0
  gotReq2 := false
  req2 := blankReq
  cacheIdx2 := 0
  lastWr2 := false
  hitBusyAddr := false
  hitBusyAddr2 := false
  fillConflict2 := false
  memReqValid := false
  memReq := ⟨0, 0, Line.zero, .lb, false, Mask.empty⟩
  inhibitWrite := false
  reloadIssue := false
  lockCache := false
  uncacheWbDirty := false
  chopWait := false
  clIsDma := false
  pend := ⟨false, false, false, false⟩
  pgOff := 0
  pgDirtyCnt := 0
  flushComplete := false
  dmaInvalAck := false
  prbSeen := false
  prbAck := false
  prbDirty := false
  prbData := Line.zero
  prbRet := .active
  prbSave := 0
  prbTag := 0
  fillRspPend := false
  fillLine := Line.zero
  rspValid := false
  rspLine := Line.zero
  stDone := false

/-- The L1D at the release of reset.  The tag and data RAMs hold anything; the valid and
dirty RAMs power up with zeros (the reset walk does not reach the last set). -/
def reset (tag : Nat → Nat) (data : Nat → Line) : L1d where
  regs := resetRegs
  arr j := ⟨false, false, tag j, data j⟩
  out := ⟨false, false, 0, Line.zero⟩
  out2 := ⟨false, false, 0, Line.zero⟩
  mq := []
  sb _ := blankSlot

/-- A cycle in which nothing comes. -/
def idleInput : Input where
  coreReqValid := false
  coreReq := blankReq
  p2Ready := false
  restartColor := false
  tlbHit := false
  tlbValid := false
  tlbDirty := false
  tlbOor := false
  tlbCached := false
  tlbPpn := 0
  matchLink2 := false
  sbBlk := false
  sbFwd := false
  sbDataValid := false
  sbDataIdx := 0
  sbData := 0
  retiredPending := false
  drainDsComplete := false
  dead := false
  req2Nonspec := false
  mqHeadNonspec := false
  noneInflight := false
  flushReq := false
  flushClReq := false
  flushPgReq := false
  flushClAddr := 0
  flushClInval := false
  dmaInvalReq := false
  dmaInvalAddr := 0
  probeReq := false
  probeAddr := 0
  probeColour := 0
  memRspValid := false
  memRspBad := false
  memRspLoadData := Line.zero

end L1d

end R9999
