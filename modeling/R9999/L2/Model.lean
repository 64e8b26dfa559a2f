import R9999.Hw.RegRam
import R9999.Basic

/-!
# The L2 cache

A cycle-accurate model of `l2.sv`: a direct-mapped, write-back cache of sixteen-byte
lines, kept in five one-port registered RAMs (data, tag, valid, dirty, presence),
driven by one state machine that serves the L1 requests, the external snoops and the
whole-cache flush, and that probes the L1D before it takes away a line the L1D may
hold.

`L2.comb` is the combinational block: it computes the next value of every register
(the source's `n_*` signals) and the command to the five RAMs (the source's `t_*`
signals), with one definition per state of the machine.  `L2.next` is the clock edge.

Signals that only feed statistics or simulation messages are left out: the hit and
access counters, `r_probe_reason`, `r_reload`, `r_got_mem_rsp_valid` and the debug
copies of the state.
-/

namespace R9999

/-- The presence record of an L2 line: `pd` says that the L1D may hold the line, `pidx`
is the colour of the L1D set it was filled into. -/
structure Pres where
  pd : Bool
  pidx : Nat
  deriving DecidableEq

/-- The cleared presence record, `'d0`. -/
def Pres.zero : Pres := ⟨false, 0⟩

/-- One L2 line as the five RAMs hold it. -/
structure L2Entry where
  valid : Bool
  dirty : Bool
  tag : Nat
  d0 : Line
  pres : Pres

/-- A request as it arrives at the L2 from the arbiter. -/
structure L1Req where
  addr : LineAddr
  cacheable : Bool
  mask : Mask
  storeData : Line
  opcode : MemOp
  fromD : Bool
  colour : Nat

namespace L2

/-- `state_t`. -/
inductive State where
  | init | idle | waitForRam | checkValidAndTag | cleanReload | dirtyStore
  | storeTurnaround | waitCleanReload | waitStoreIdle | flushStore | flushWait | flushTriage
  | uncacheStore | uncacheLoad | uncacheWbTurnaround | uncacheWbDrain
  deriving DecidableEq, Repr

/-- `flush_state_t`. -/
inductive FlushState where
  | waitForFlush | waitForL1FlushDone
  deriving DecidableEq, Repr

/-- The registers of the L2. -/
structure Regs where
  state : State
  flushState : FlushState
  needL1i : Bool
  needL1d : Bool
  hadL1d : Bool
  flushSkip : Bool
  flushReq : Bool
  flushComplete : Bool
  idx : Nat
  tag : Nat
  opcode : MemOp
  fromD : Bool
  reqColour : Nat
  addr : LineAddr
  saveaddr : LineAddr
  memReq : Bool
  memOpcode : MemOp
  rspData : Line
  rspValid : Bool
  rspBad : Bool
  reqAck : Bool
  snoopAck : Bool
  snpWbinv : Bool
  snoopDone : Bool
  storeData : Line
  storeMask : Mask
  isUncache : Bool
  uncacheMask : Mask
  memReqStoreData : Line
  probeReq : Bool
  probeAddr : LineAddr
  probeColour : Nat
  probed : Bool
  probeDirty : Bool
  probeData : Line

/-- The input pins. -/
structure Input where
  l1iFlushReq : Bool
  l1dFlushReq : Bool
  l1iFlushComplete : Bool
  l1dFlushComplete : Bool
  reqValid : Bool
  req : L1Req
  nocache : Bool
  memReqAck : Bool
  memRspValid : Bool
  memRspBad : Bool
  memRspLoadData : Line
  snoopReqValid : Bool
  snoopReqAddr : LineAddr
  snoopReqWbinv : Bool
  probeAck : Bool
  probeDirty : Bool
  probeData : Line

/-- The result of the combinational block: next register values and RAM command. -/
structure Comb where
  n : Regs
  tIdx : Nat
  wrValid : Bool
  valid : Bool
  wrDirty : Bool
  dirty : Bool
  wrTag : Bool
  wrD0 : Bool
  d0 : Line
  wrPres : Bool
  pres : Pres

/-! ## The flush request machine -/

/-- What the flush request machine computes in a cycle. -/
structure FlushComb where
  state : FlushState
  needL1d : Bool
  needL1i : Bool
  hadL1d : Bool
  l2FlushReq : Bool
  l2SkipWalk : Bool

/-- The machine that waits for the L1 caches to finish their flush before it asks for
the L2 walk; a sequence without an L1D flush skips the walk. -/
def flushComb (r : Regs) (i : Input) : FlushComb :=
  let needL1d := r.needL1d || i.l1dFlushReq
  let needL1i := r.needL1i || i.l1iFlushReq
  let hadL1d := r.hadL1d || i.l1dFlushReq
  match r.flushState with
  | .waitForFlush =>
      ⟨if needL1i || needL1d then .waitForL1FlushDone else .waitForFlush,
        needL1d, needL1i, hadL1d, false, false⟩
  | .waitForL1FlushDone =>
      let needL1d := if r.needL1d && i.l1dFlushComplete then false else needL1d
      let needL1i := if r.needL1i && i.l1iFlushComplete then false else needL1i
      if !needL1d && !needL1i then
        ⟨.waitForFlush, needL1d, needL1i, false, true, !hadL1d⟩
      else
        ⟨.waitForL1FlushDone, needL1d, needL1i, hadL1d, false, false⟩

/-! ## The main state machine -/

variable (g : Geometry)

/-- `w_hit`. -/
def hit (r : Regs) (w : L2Entry) : Bool := w.valid && (r.tag == w.tag)

/-- `w_need_wb`. -/
def needWb (w : L2Entry) : Bool := w.valid && w.dirty

/-- `w_alias`: an L1D fill, invalidate or page drop of a line the L1D holds at another
colour. -/
def isAlias (r : Regs) (w : L2Entry) : Bool :=
  r.fromD && !r.isUncache && hit r w && w.pres.pd && (w.pres.pidx != r.reqColour) &&
    (r.opcode == .lw || r.opcode == .invl || r.opcode == .pgdrop)

/-- `w_l2_cacheable`: with `l2_nocache` set, only the cache-management operations are
treated as cacheable. -/
def l2Cacheable (i : Input) : Bool :=
  i.req.cacheable && (!i.nocache || decide (24 ≤ i.req.opcode.code))

/-- The values every signal has before the state is looked at. -/
def combDefault (r : Regs) (i : Input) : Comb :=
  let f := flushComb r i
  { n :=
      { r with
        flushState := f.state
        needL1d := f.needL1d
        needL1i := f.needL1i
        hadL1d := f.hadL1d
        flushComplete := false
        reqAck := false
        snoopAck := false
        snoopDone := false
        rspValid := false
        rspBad := false
        flushReq := r.flushReq || f.l2FlushReq
        flushSkip := r.flushSkip || (f.l2FlushReq && f.l2SkipWalk) }
    tIdx := r.idx
    wrValid := false
    valid := false
    wrDirty := false
    dirty := false
    wrTag := false
    wrD0 := false
    d0 := i.memRspLoadData
    wrPres := false
    pres := Pres.zero }

/-- `INITIALIZE`: clear the valid and dirty bits of every index. -/
def initArm (r : Regs) (c : Comb) : Comb :=
  let c := { c with wrValid := true, wrDirty := true, tIdx := g.l2Succ r.idx }
  if r.idx = g.l2Lines - 1 then
    { c with n := { c.n with state := .idle, flushComplete := true } }
  else c

/-- `IDLE`: a pending flush first, then a snoop, then an L1 request. -/
def idle (i : Input) (c : Comb) : Comb :=
  let q := i.req
  let c :=
    { c with
      tIdx := g.l2Idx q.addr
      n :=
        { c.n with
          tag := g.l2Tag q.addr
          addr := q.addr
          saveaddr := q.addr
          opcode := q.opcode
          fromD := q.fromD
          reqColour := q.colour
          probed := false
          probeDirty := false
          storeData := q.storeData
          storeMask := Mask.empty } }
  if c.n.flushReq && c.n.flushSkip then
    { c with n := { c.n with flushComplete := true, flushReq := false, flushSkip := false } }
  else if c.n.flushReq then
    { c with tIdx := 0, n := { c.n with state := .flushWait, storeMask := Mask.full } }
  else if i.snoopReqValid then
    { c with
      tIdx := g.l2Idx i.snoopReqAddr
      n :=
        { c.n with
          tag := g.l2Tag i.snoopReqAddr
          addr := i.snoopReqAddr
          saveaddr := i.snoopReqAddr
          opcode := .snoopInvl
          snoopAck := true
          snpWbinv := i.snoopReqWbinv
          fromD := false
          state := .waitForRam } }
  else if i.reqValid then
    if l2Cacheable i then
      { c with
        n :=
          { c.n with
            reqAck := true
            state := .waitForRam
            rspValid := q.opcode == .sw
            isUncache := false } }
    else
      { c with
        n :=
          { c.n with
            uncacheMask := q.mask
            storeMask := q.mask
            memOpcode := q.opcode
            memReqStoreData := q.storeData
            reqAck := true
            isUncache := true
            state := .waitForRam } }
  else c

/-- Send the resident line's probe to the L1D and hold it until the acknowledge. -/
def sendProbe (r : Regs) (w : L2Entry) (i : Input) (c : Comb) : Comb :=
  let c :=
    { c with
      n :=
        { c.n with
          probeReq := true
          probeAddr := g.l2Line w.tag r.idx
          probeColour := w.pres.pidx } }
  if r.probeReq && i.probeAck then
    { c with
      n :=
        { c.n with
          probeReq := false
          probed := true
          probeDirty := i.probeDirty
          probeData := i.probeData } }
  else c

/-- Clear the valid and dirty bits of the current index. -/
def dropLine (c : Comb) : Comb :=
  { c with wrValid := true, valid := false, wrDirty := true, dirty := false }

/-- Request a full-line write of `data` to the resident line's address, and go to
`state`. -/
def writeBack (r : Regs) (w : L2Entry) (data : Line) (state : State) (c : Comb) : Comb :=
  { c with
    n :=
      { c.n with
        memReqStoreData := data
        addr := g.l2Line w.tag r.idx
        memOpcode := .sw
        storeMask := Mask.full
        memReq := true
        state := state } }

/-- The newest copy of the resident line: the probe's dirty data, or the L2's own. -/
def newest (r : Regs) (w : L2Entry) : Line :=
  if r.probeDirty then r.probeData else w.d0

/-- Issue the saved uncached access. -/
def issueUncached (r : Regs) (c : Comb) : Comb :=
  { c with
    n :=
      { c.n with
        addr := r.saveaddr
        memOpcode := r.opcode
        storeMask := r.uncacheMask
        memReqStoreData := r.storeData
        memReq := true
        state := if r.opcode = .sw then .uncacheStore else .uncacheLoad } }

/-- The uncached arm of `CHECK_VALID_AND_TAG`: evict a resident copy, then access
DRAM. -/
def checkUncached (r : Regs) (w : L2Entry) (c : Comb) : Comb :=
  let c := { c with n := { c.n with isUncache := false } }
  if hit r w then
    if w.dirty then writeBack g r w w.d0 .uncacheWbDrain (dropLine c)
    else issueUncached r (dropLine c)
  else issueUncached r c

/-- The `MEM_INVL` arm: drop the line, writing a dirty copy back first. -/
def checkInvl (r : Regs) (w : L2Entry) (c : Comb) : Comb :=
  if hit r w then
    if w.dirty || r.probeDirty then
      writeBack g r w (newest r w) .uncacheWbDrain (dropLine c)
    else
      let c := dropLine c
      { c with n := { c.n with state := .idle, rspValid := true } }
  else { c with n := { c.n with state := .idle, rspValid := true } }

/-- The line `{127'd0, b}`. -/
def flagLine (b : Bool) : Line := fun k => if k = 0 ∧ b then 1 else 0

/-- The `MEM_PGDROP` arm: drop the line without a writeback and report whether a dirty
copy was discarded. -/
def checkPgdrop (r : Regs) (w : L2Entry) (c : Comb) : Comb :=
  let c := if hit r w then dropLine c else c
  { c with
    n :=
      { c.n with
        rspData := flagLine (hit r w && (w.dirty || r.probeDirty))
        state := .idle
        rspValid := true } }

/-- The WBINV snoop arm: probe the L1D, write a dirty copy back, invalidate. -/
def checkSnoopWbinv (r : Regs) (w : L2Entry) (i : Input) (c : Comb) : Comb :=
  if hit r w && w.pres.pd && !r.probed then sendProbe g r w i c
  else if hit r w then
    if w.dirty || r.probeDirty then
      writeBack g r w (newest r w) .uncacheWbDrain (dropLine c)
    else
      let c := dropLine c
      { c with n := { c.n with state := .idle, snoopDone := true } }
  else { c with n := { c.n with state := .idle, snoopDone := true } }

/-- The DROP snoop arm: probe the L1D, then discard both copies. -/
def checkSnoopDrop (r : Regs) (w : L2Entry) (i : Input) (c : Comb) : Comb :=
  if hit r w && w.pres.pd && !r.probed then sendProbe g r w i c
  else
    let c := if hit r w then dropLine c else c
    { c with n := { c.n with state := .idle, snoopDone := true } }

/-- The `MEM_WB` arm: write the L1D's line through to DRAM and drop the L2's copy.  Only
the valid bit is cleared. -/
def checkWb (r : Regs) (w : L2Entry) (c : Comb) : Comb :=
  let c :=
    { c with
      n :=
        { c.n with
          memReqStoreData := r.storeData
          addr := r.saveaddr
          memOpcode := .sw
          storeMask := Mask.full
          memReq := true
          state := .uncacheStore } }
  if hit r w then { c with wrValid := true, valid := false } else c

/-- The hit arm for fills and writebacks. -/
def checkHit (r : Regs) (w : L2Entry) (c : Comb) : Comb :=
  if r.opcode = .lw then
    let c := if r.fromD then { c with wrPres := true, pres := ⟨true, r.reqColour⟩ } else c
    let c :=
      { c with n := { c.n with rspData := newest r w, state := .idle, rspValid := true } }
    if r.probeDirty then
      { c with d0 := r.probeData, wrD0 := true, wrDirty := true, dirty := true }
    else c
  else if r.opcode = .sw then
    let c := if r.fromD then { c with wrPres := true, pres := Pres.zero } else c
    { c with
      wrDirty := true
      dirty := true
      d0 := r.storeData
      wrD0 := true
      n := { c.n with state := .waitStoreIdle } }
  else c

/-- The miss arm: evict a dirty resident line to DRAM, or reload at once. -/
def checkMiss (r : Regs) (w : L2Entry) (c : Comb) : Comb :=
  if needWb w || r.probeDirty then
    let c := writeBack g r w (newest r w) .dirtyStore c
    { c with n := { c.n with probeDirty := false } }
  else
    { c with
      n :=
        { c.n with
          state := .cleanReload
          memOpcode := .lw
          storeMask := Mask.full
          memReq := true } }

/-- `CHECK_VALID_AND_TAG`. -/
def checkValidAndTag (r : Regs) (w : L2Entry) (i : Input) (c : Comb) : Comb :=
  if r.isUncache then checkUncached g r w c
  else if isAlias r w && !r.probed then sendProbe g r w i c
  else if r.opcode = .invl then checkInvl g r w c
  else if r.opcode = .pgdrop then checkPgdrop r w c
  else if r.opcode = .snoopInvl then
    if r.snpWbinv then checkSnoopWbinv g r w i c else checkSnoopDrop g r w i c
  else if r.opcode = .wb then checkWb r w c
  else if hit r w then checkHit r w c
  else if w.valid && w.pres.pd && !r.probed then sendProbe g r w i c
  else checkMiss g r w c

/-- A memory-side wait state: the request is dropped on its acknowledge, and `done` runs
when the reply arrives. -/
def memWait (i : Input) (done : Comb → Comb) (c : Comb) : Comb :=
  let c := if i.memReqAck then { c with n := { c.n with memReq := false } } else c
  if i.memRspValid then done { c with n := { c.n with memReq := false } } else c

/-- The reply to an eviction's writeback: turn round and fetch the missing line. -/
def dirtyStoreDone (r : Regs) (c : Comb) : Comb :=
  { c with
    n :=
      { c.n with
        addr := r.saveaddr
        memOpcode := .lw
        storeMask := Mask.full
        state := .storeTurnaround } }

/-- The reply to a fill: install the line, valid and clean. -/
def cleanReloadDone (c : Comb) : Comb :=
  { c with
    valid := true
    wrValid := true
    dirty := false
    wrDirty := true
    wrTag := true
    wrD0 := true
    n := { c.n with state := .waitCleanReload } }

/-- Step the flush walk to the next index, or finish it. -/
def flushAdvance (r : Regs) (c : Comb) : Comb :=
  let c := { c with tIdx := g.l2Succ r.idx }
  if r.idx = g.l2Lines - 1 then
    { c with n := { c.n with state := .idle, flushComplete := true, flushReq := false } }
  else { c with n := { c.n with state := .flushWait } }

/-- `FLUSH_TRIAGE`: write the line back if it was valid and dirty. -/
def flushTriage (r : Regs) (w : L2Entry) (c : Comb) : Comb :=
  if needWb w then
    { c with
      n :=
        { c.n with
          memReqStoreData := w.d0
          addr := g.l2Line w.tag r.idx
          memOpcode := .sw
          memReq := true
          state := .flushStore } }
  else flushAdvance g r c

/-- `UNCACHE_WB_TURNAROUND`: the writeback that preceded an invalidate, a snoop or an
uncached access has drained. -/
def uncacheWbTurnaround (r : Regs) (c : Comb) : Comb :=
  if r.opcode = .invl then { c with n := { c.n with state := .idle, rspValid := true } }
  else if r.opcode = .snoopInvl then
    { c with n := { c.n with state := .idle, snoopDone := true } }
  else issueUncached r c

/-- The `case(r_state)` of the combinational block; `w` is the output of the five
RAMs. -/
def combState (r : Regs) (w : L2Entry) (i : Input) (c : Comb) : Comb :=
  match r.state with
  | .init => initArm g r c
  | .idle => idle g i c
  | .waitForRam => { c with n := { c.n with state := .checkValidAndTag } }
  | .checkValidAndTag => checkValidAndTag g r w i c
  | .dirtyStore => memWait i (dirtyStoreDone r) c
  | .storeTurnaround => { c with n := { c.n with state := .cleanReload, memReq := true } }
  | .cleanReload => memWait i cleanReloadDone c
  | .waitCleanReload => { c with n := { c.n with state := .waitForRam } }
  | .waitStoreIdle => { c with n := { c.n with state := .idle } }
  | .flushWait =>
      { dropLine c with n := { c.n with state := .flushTriage } }
  | .flushTriage => flushTriage g r w c
  | .flushStore => memWait i (flushAdvance g r) c
  | .uncacheStore =>
      memWait i (fun c => { c with n := { c.n with state := .idle, rspValid := true } }) c
  | .uncacheLoad =>
      memWait i
        (fun c =>
          { c with
            n :=
              { c.n with
                rspValid := true
                rspData := i.memRspLoadData
                rspBad := i.memRspBad
                state := .idle } }) c
  | .uncacheWbDrain =>
      memWait i (fun c => { c with n := { c.n with state := .uncacheWbTurnaround } }) c
  | .uncacheWbTurnaround => uncacheWbTurnaround r c

/-- Every write of a valid bit that does not write the presence record clears it. -/
def clearPres (c : Comb) : Comb :=
  if c.wrValid && !c.wrPres then { c with wrPres := true, pres := Pres.zero } else c

/-- The combinational block. -/
def comb (r : Regs) (w : L2Entry) (i : Input) : Comb :=
  clearPres (combState g r w i (combDefault r i))

end L2

/-- The L2: its registers and its five RAMs. -/
structure L2 where
  regs : L2.Regs
  dataRam0 : Hw.RegRam Line
  tagRam : Hw.RegRam Nat
  validRam : Hw.RegRam Bool
  dirtyRam : Hw.RegRam Bool
  presRam : Hw.RegRam Pres

namespace L2

/-- The RAM outputs `w_valid`, `w_dirty`, `w_tag`, `w_d0` and `w_pres`. -/
def wires (s : L2) : L2Entry :=
  ⟨s.validRam.rdData, s.dirtyRam.rdData, s.tagRam.rdData, s.dataRam0.rdData,
    s.presRam.rdData⟩

/-- One clock edge of the L2. -/
def next (g : Geometry) (s : L2) (i : Input) : L2 :=
  let c := comb g s.regs s.wires i
  { regs := { c.n with idx := c.tIdx }
    dataRam0 := s.dataRam0.clock c.tIdx c.d0 c.wrD0
    tagRam := s.tagRam.clock c.tIdx s.regs.tag c.wrTag
    validRam := s.validRam.clock c.tIdx c.valid c.wrValid
    dirtyRam := s.dirtyRam.clock c.tIdx c.dirty c.wrDirty
    presRam := s.presRam.clock c.tIdx c.pres c.wrPres }

/-- The line the L2 holds at an index, with the writes in the RAMs' input registers
applied. -/
def entry (s : L2) (j : Nat) : L2Entry :=
  ⟨s.validRam.contents j, s.dirtyRam.contents j, s.tagRam.contents j,
    s.dataRam0.contents j, s.presRam.contents j⟩

/-- The registers at the release of reset. -/
def resetRegs : Regs where
  state := .init
  flushState := .waitForFlush
  needL1i := false
  needL1d := false
  hadL1d := false
  flushSkip := false
  flushReq := false
  flushComplete := false
  idx := 0
  tag := 0
  opcode := .lb
  fromD := false
  reqColour := 0
  addr := 0
  saveaddr := 0
  memReq := false
  memOpcode := .lb
  rspData := Line.zero
  rspValid := false
  rspBad := false
  reqAck := false
  snoopAck := false
  snpWbinv := false
  snoopDone := false
  storeData := Line.zero
  storeMask := Mask.empty
  isUncache := false
  uncacheMask := Mask.empty
  memReqStoreData := Line.zero
  probeReq := false
  probeAddr := 0
  probeColour := 0
  probed := false
  probeDirty := false
  probeData := Line.zero

end L2

end R9999
