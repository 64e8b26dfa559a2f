import R9999.Hw.Run
import R9999.L1d.Model
import R9999.L2.Memory

/-!
# The memory hierarchy

The two L1 caches, the arbiter between them and the L2, the L2 and DRAM, as
`core_l1d_l1i.sv` connects them.  The L1I takes part only through its request port: it
sends one fill request and waits for the reply.  The core takes part through the requests
it makes of the L1D and through the flush operations it starts (`CorePort`): while one is
in progress it performs nothing but the stores it had already retired (the `CACHE_FLUSH`
state of `core.sv`).

Every component is clocked at once: each reads the registers the others held before the
edge.
-/

namespace R9999

/-! ## The arbiter -/

namespace Arbiter

/-- `state_t` of the arbiter. -/
inductive State where
  | idle | gntL1d | gntL1i
  deriving DecidableEq, Repr

end Arbiter

/-- The registers of the arbiter. -/
structure Arbiter where
  state : Arbiter.State
  lastGnt : Bool
  l1dReq : Bool
  l1iReq : Bool
  req : Bool
  deriving DecidableEq

namespace Arbiter

/-- The arbiter after reset. -/
def reset : Arbiter := ⟨.idle, false, false, false, false⟩

/-- The grant an idle arbiter makes. -/
def grant (a : Arbiter) (l1d l1i : Bool) : State :=
  let d := a.l1dReq || l1d
  let i := a.l1iReq || l1i
  if d && !i then .gntL1d
  else if !d && i then .gntL1i
  else if d && i then if a.lastGnt then .gntL1d else .gntL1i
  else .idle

/-- `t_l2_passthru`: the request of the L1D reaches the L2 in the grant cycle. -/
def passthru (a : Arbiter) (l1d l1i : Bool) : Bool :=
  a.state == .idle && a.grant l1d l1i == .gntL1d

/-- One clock edge: `l1d` and `l1i` are the request pulses of the caches, `ack` and `rsp`
the acknowledge and the response of the L2. -/
def next (a : Arbiter) (l1d l1i ack rsp : Bool) : Arbiter :=
  match a.state with
  | .idle =>
      let s := a.grant l1d l1i
      { a with
        state := s, l1dReq := a.l1dReq || l1d, l1iReq := a.l1iReq || l1i
        req := a.req || s != .idle }
  | .gntL1d =>
      { state := if rsp then .idle else .gntL1d
        lastGnt := false, l1dReq := false, l1iReq := a.l1iReq || l1i
        req := a.req && !ack && !rsp }
  | .gntL1i =>
      { state := if rsp then .idle else .gntL1i
        lastGnt := true, l1dReq := a.l1dReq || l1d, l1iReq := false
        req := a.req && !ack && !rsp }

end Arbiter

/-! ## The request port of the L1I -/

/-- The L1I's request to the L2: `waiting` is its `INJECT_RELOAD` state. -/
structure L1iPort where
  waiting : Bool
  memReqValid : Bool
  addr : LineAddr
  cacheable : Bool

/-- One clock edge of the port: a miss (`t_miss`) sends the line and waits. -/
def L1iPort.next (p : L1iPort) (miss : Bool) (addr : LineAddr) (cacheable rsp : Bool) :
    L1iPort :=
  if p.waiting then { p with memReqValid := false, waiting := !rsp }
  else if miss then ⟨true, true, addr, cacheable⟩
  else { p with memReqValid := false }

/-! ## The core's port -/

/-- The states of the core's control machine as the caches see them. -/
inductive CoreState where
  /-- `FLUSH_FOR_HALT`: wait for the caches to come out of reset. -/
  | flushForHalt
  /-- Instructions run. -/
  | active
  /-- `CACHE_FLUSH` of a line or page operation. -/
  | lineFlush
  /-- `CACHE_FLUSH` of a whole-cache operation (`XFLUSH`). -/
  | wholeFlush
  deriving DecidableEq, Repr

/-- The flush operations the core can start. -/
inductive CoreOp where
  | none
  | whole
  | line (addr : LineAddr) (inval : Bool)
  | page (addr : LineAddr) (inval : Bool)

/-- The registers of the core that talk to the caches.  `quiet` says that the stores
retired before the flush have all been performed. -/
structure CorePort where
  state : CoreState
  l1dFlushComplete : Bool
  l2FlushComplete : Bool
  quiet : Bool
  flushReqL1d : Bool
  flushClReq : Bool
  flushPgReq : Bool
  flushClAddr : LineAddr
  flushClInval : Bool

namespace CorePort

/-- The core after reset. -/
def reset : CorePort := ⟨.flushForHalt, false, false, false, false, false, false, 0, false⟩

/-- The core may present a memory request. -/
def mayRequest (p : CorePort) (commit : Bool) : Bool :=
  match p.state with
  | .flushForHalt => false
  | .active => true
  | .lineFlush | .wholeFlush => commit && !p.quiet

/-- One clock edge: `l1d` and `l2` are the completion pulses of the caches. -/
def next (p : CorePort) (op : CoreOp) (retiredPending l1d l2 : Bool) : CorePort :=
  let p :=
    { p with
      l1dFlushComplete := p.l1dFlushComplete || l1d
      l2FlushComplete := p.l2FlushComplete || l2
      quiet := p.quiet || !retiredPending
      flushReqL1d := false, flushClReq := false, flushPgReq := false }
  match p.state with
  | .active =>
      let p := { p with quiet := false }
      match op with
      | .none => p
      | .whole => { p with state := .wholeFlush, flushReqL1d := true }
      | .line addr inval =>
          { p with
            state := .lineFlush, flushClReq := true, flushClAddr := addr
            flushClInval := inval, l2FlushComplete := true }
      | .page addr inval =>
          { p with
            state := .lineFlush, flushPgReq := true, flushClAddr := addr
            flushClInval := inval, l2FlushComplete := true }
  | _ =>
      if p.l1dFlushComplete && p.l2FlushComplete then
        { p with state := .active, l1dFlushComplete := false, l2FlushComplete := false }
      else p

end CorePort

/-- The DMA engine's invalidate port: the address is held until the acknowledge. -/
structure DmaPort where
  busy : Bool
  req : Bool
  addr : LineAddr

/-- One clock edge of the DMA engine's port. -/
def DmaPort.next (p : DmaPort) (req : Bool) (addr : LineAddr) (ack : Bool) : DmaPort :=
  if p.busy then { p with req := false, busy := !ack }
  else if req then ⟨true, true, addr⟩
  else { p with req := false }

/-! ## The hierarchy -/

/-- The hierarchy with DRAM behind it.  `nocache` is the static pin `l2_nocache`. -/
structure Hier where
  core : CorePort
  dma : DmaPort
  l1d : L1d
  l1i : L1iPort
  arb : Arbiter
  l2 : L2
  dram : Mem
  nocache : Bool

/-- The inputs of one cycle: the core's requests with the answers of the units the L1D
asks about them, the L1I's misses, the snoops, the DMA engine and the memory. -/
structure Stim where
  coreOp : CoreOp
  coreReqValid : Bool
  coreReq : CoreReq
  p2Ready : Bool
  restartColor : Bool
  tlbHit : Bool
  tlbValid : Bool
  tlbDirty : Bool
  tlbOor : Bool
  tlbCached : Bool
  tlbPpn : Nat
  matchLink2 : Bool
  sbBlk : Bool
  sbFwd : Bool
  sbDataValid : Bool
  sbDataIdx : Nat
  sbData : BitVec 64
  retiredPending : Bool
  drainDsComplete : Bool
  dead : Bool
  req2Nonspec : Bool
  mqHeadNonspec : Bool
  noneInflight : Bool
  dmaInvalReq : Bool
  dmaInvalAddr : LineAddr
  l1iMiss : Bool
  l1iAddr : LineAddr
  l1iCacheable : Bool
  l1iFlushComplete : Bool
  memRspValid : Bool
  memRspBad : Bool
  snoopReqValid : Bool
  snoopReqAddr : LineAddr
  snoopReqWbinv : Bool
  /-- The request is one the LSU makes. -/
  reqOk : coreReq.Ok

namespace Hier

variable (g : Geometry)

/-- The L1D's request pulse and the L1I's, as the arbiter sees them. -/
def passthru (s : Hier) : Bool := s.arb.passthru s.l1d.regs.memReqValid s.l1i.memReqValid

/-- `l1d_mem_rsp_valid`. -/
def l1dRsp (s : Hier) : Bool := s.arb.state == .gntL1d && s.l2.regs.rspValid

/-- `l1i_mem_rsp_valid`. -/
def l1iRsp (s : Hier) : Bool := s.arb.state == .gntL1i && s.l2.regs.rspValid

/-- The request the L2 sees: the address mux selects the L1I only while it is granted. -/
def l2Req (s : Hier) : L1Req :=
  let q := s.l1d.regs.memReq
  if s.arb.state = .gntL1i then
    { addr := s.l1i.addr, cacheable := s.l1i.cacheable, mask := Mask.full
      storeData := q.storeData, opcode := .lw, fromD := false, colour := 0 }
  else
    { addr := q.addr, cacheable := q.cacheable, mask := q.mask, storeData := q.storeData
      opcode := q.opcode, fromD := true, colour := g.colour q.idx }

/-- The pins of the L2. -/
def l2Pins (s : Hier) (i : Stim) : L2.Input where
  l1iFlushReq := false
  l1dFlushReq := s.core.flushReqL1d
  l1iFlushComplete := i.l1iFlushComplete
  l1dFlushComplete := s.l1d.regs.flushComplete
  reqValid := s.arb.req || s.passthru
  req := s.l2Req g
  nocache := s.nocache
  memReqAck := false
  memRspValid := i.memRspValid
  memRspBad := i.memRspBad
  memRspLoadData := s.dram s.l2.regs.addr
  snoopReqValid := i.snoopReqValid
  snoopReqAddr := i.snoopReqAddr
  snoopReqWbinv := i.snoopReqWbinv
  probeAck := s.l1d.regs.prbAck
  probeDirty := s.l1d.regs.prbDirty
  probeData := s.l1d.regs.prbData

/-- The pins of the L1D. -/
def l1dPins (s : Hier) (i : Stim) : L1d.Input where
  coreReqValid := i.coreReqValid && s.core.mayRequest i.coreReq.commit
  coreReq := i.coreReq
  p2Ready := i.p2Ready
  restartColor := i.restartColor
  tlbHit := i.tlbHit
  tlbValid := i.tlbValid
  tlbDirty := i.tlbDirty
  tlbOor := i.tlbOor
  tlbCached := i.tlbCached
  tlbPpn := i.tlbPpn
  matchLink2 := i.matchLink2
  sbBlk := i.sbBlk
  sbFwd := i.sbFwd
  sbDataValid := i.sbDataValid
  sbDataIdx := i.sbDataIdx
  sbData := i.sbData
  retiredPending := i.retiredPending && !s.core.quiet
  drainDsComplete := i.drainDsComplete
  dead := i.dead
  req2Nonspec := i.req2Nonspec
  mqHeadNonspec := i.mqHeadNonspec
  noneInflight := i.noneInflight
  flushReq := s.core.flushReqL1d
  flushClReq := s.core.flushClReq
  flushPgReq := s.core.flushPgReq
  flushClAddr := s.core.flushClAddr
  flushClInval := s.core.flushClInval
  dmaInvalReq := s.dma.req
  dmaInvalAddr := s.dma.addr
  probeReq := s.l2.regs.probeReq
  probeAddr := s.l2.regs.probeAddr
  probeColour := s.l2.regs.probeColour
  memRspValid := s.l1dRsp
  memRspBad := s.l2.regs.rspBad
  memRspLoadData := s.l2.regs.rspData

/-- One clock edge of the hierarchy. -/
def next (s : Hier) (i : Stim) : Hier where
  core :=
    s.core.next i.coreOp i.retiredPending s.l1d.regs.flushComplete s.l2.regs.flushComplete
  dma := s.dma.next i.dmaInvalReq i.dmaInvalAddr s.l1d.regs.dmaInvalAck
  l1d := s.l1d.next g (s.l1dPins i)
  l1i := s.l1i.next i.l1iMiss i.l1iAddr i.l1iCacheable s.l1iRsp
  arb :=
    s.arb.next s.l1d.regs.memReqValid s.l1i.memReqValid s.l2.regs.reqAck s.l2.regs.rspValid
  l2 := s.l2.next g (s.l2Pins g i)
  dram := L2View.dramNext s.l2.regs (s.l2Pins g i) s.dram
  nocache := s.nocache

/-- A run from a state. -/
def run (s : Hier) (is : List Stim) : Hier := Hw.run (next g) s is

/-- What the RAMs and DRAM hold when the power comes up. -/
structure Contents where
  l1dTag : Nat → Nat
  l1dData : Nat → Line
  l2Data : Hw.RegRam Line
  l2Tag : Hw.RegRam Nat
  l2Valid : Hw.RegRam Bool
  l2Dirty : Hw.RegRam Bool
  l2Pres : Hw.RegRam Pres
  dram : Mem

/-- The hierarchy at the release of reset. -/
def reset (c : Contents) (nocache : Bool) : Hier where
  core := CorePort.reset
  dma := ⟨false, false, 0⟩
  l1d := L1d.reset c.l1dTag c.l1dData
  l1i := ⟨false, false, 0, false⟩
  arb := Arbiter.reset
  l2 := ⟨L2.resetRegs, c.l2Data, c.l2Tag, c.l2Valid, c.l2Dirty, c.l2Pres⟩
  dram := c.dram
  nocache := nocache

end Hier

end R9999
