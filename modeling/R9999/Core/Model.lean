import R9999.Hw.Run

/-!
# The retirement engine of the core

The control machine of `core.sv`: decoded operations wait in the decode queue, are
allocated in order into the reorder buffer, complete in any order, and retire in order.
A mispredicted branch at the head goes through `DRAIN` (where its delay slot retires) and
`RAT`; a faulting operation goes through `ARCH_FAULT` and `WRITE_EPC`; a serializing
operation is allocated alone, or, when it sits in the slot of a mispredicted branch,
through `SERIALIZE_IN_FAULTED_DELAY_SLOT`.

The reorder buffer is the list of its entries, oldest first, and an execution unit names
an entry by its distance from the head.  The schedulers, the execution units, the free
lists and the caches are inputs: which entry starts or completes in a cycle and with what
result, whether there is room for an allocation, whether the pipes have drained.  The
debug registers, the break and halt outputs and the statistics are left out.
-/

namespace R9999

namespace Core

/-- The operations that the core or the CP0 and FP control registers treat each in their
own way; everything else is `other`. -/
inductive Op where
  | nop | j | jal | jalr | jr | bal | irq | fetchMisaligned | fetchAddrError | fetchTlbMiss
  | fetchTlbInvalid | cpu | ii | break | syscall | eret | mtc0 | dmtc0 | mfc0 | dmfc0 | tlbp
  | tlbr | tlbwi | tlbwr | ctc1 | cfc1 | cacheOp | xflush | xpgWbinv | xpgInv | other
  deriving DecidableEq, Repr

/-- `is_cp0_wr`. -/
def Op.isCp0Wr : Op → Bool
  | .mtc0 | .dmtc0 | .tlbp | .tlbr => true
  | _ => false

/-- `is_cp0_rd`. -/
def Op.isCp0Rd : Op → Bool
  | .mfc0 | .dmfc0 | .tlbr | .tlbwi | .tlbwr | .tlbp | .eret => true
  | _ => false

/-- `is_xflush`. -/
def Op.isXflush : Op → Bool
  | .xflush | .xpgWbinv | .xpgInv => true
  | _ => false

/-- `t_fold_uop`: the operation is complete when it is allocated. -/
def Op.fold : Op → Bool
  | .nop | .j | .irq | .fetchMisaligned | .fetchAddrError | .fetchTlbMiss | .fetchTlbInvalid
  | .cpu | .ii => true
  | _ => false

/-- The folded operations that fault. -/
def Op.foldFaults : Op → Bool
  | .irq | .fetchMisaligned | .fetchAddrError | .fetchTlbMiss | .fetchTlbInvalid | .cpu
  | .ii => true
  | _ => false

/-- `op` completes with or without a fault as `exec.sv` has it: the serializing operations
never fault, the oldest-first ones that rewrite the TLB, return or trap always do. -/
def Op.faults : Op → Bool → Bool
  | .mtc0, _ | .dmtc0, _ | .ctc1, _ | .cacheOp, _ | .xflush, _ | .xpgWbinv, _ | .xpgInv, _
  | .mfc0, _ | .dmfc0, _ | .cfc1, _ => false
  | .eret, _ | .tlbr, _ | .tlbwi, _ | .tlbwr, _ | .break, _ | .syscall, _ => true
  | _, b => b

/-- The operations that write architectural state when they are executed, not when they
retire. -/
def Op.writesNow : Op → Bool
  | .ctc1 | .eret | .tlbr | .tlbwi | .tlbwr => true
  | _ => false

/-- The moves to CP0. -/
def Op.moves : Op → Bool
  | .mtc0 | .dmtc0 => true
  | _ => false

/-- `w_mtc0_plain`: the CP0 registers whose write does not serialize. -/
def mtc0Plain (reg : Nat) : Bool :=
  reg == 0 || reg == 2 || reg == 3 || reg == 4 || reg == 5 || reg == 7 || reg == 14 ||
    reg == 20 || reg == 30

/-- The operations that `decode_mips.sv` may mark as serializing. -/
def Op.serializes : Op → Bool
  | .mtc0 | .dmtc0 | .ctc1 | .cacheOp | .xflush | .xpgWbinv | .xpgInv => true
  | _ => false

/-- The operations that may be marked with a delay slot: the branches, and the reserved
encodings of `REGIMM`. -/
def Op.jumps : Op → Bool
  | .j | .jal | .jalr | .jr | .bal | .ii | .other => true
  | _ => false

/-- The fields of a decoded operation (`uop_t`). -/
structure UopFields where
  op : Op
  pc : BitVec 64
  predTarget : BitVec 64
  isBr : Bool
  hasDelaySlot : Bool
  hasNullifyingDelaySlot : Bool
  serializingOp : Bool
  oldestFirst : Bool
  isInt : Bool
  isMem : Bool
  isFp : Bool
  /-- `is_store` of the opcode. -/
  isStore : Bool
  /-- `srcB_valid | (fp_srcB_valid & is_store)`. -/
  hasStoreData : Bool
  /-- `srcA == 31`. -/
  srcARa : Bool
  cpuCe1 : Bool
  cacheIsD : Bool
  cacheInval : Bool
  dst : Nat
  dstValid : Bool
  hiloDstValid : Bool
  fcrDstValid : Bool
  fpDstValid : Bool

/-- What `decode_mips.sv` promises about every operation it emits. -/
structure UopFields.Ok (u : UopFields) : Prop where
  serializing : u.serializingOp = true → u.op.serializes = true
  ctc1 : u.op = .ctc1 → u.serializingOp = true
  cacheOp : u.op = .cacheOp → u.serializingOp = true
  xflush : u.op.isXflush = true → u.serializingOp = true
  /-- A serializing operation is for the int pipe, is no branch and may issue at once. -/
  plain : u.op.serializes = true → u.isInt = true ∧ u.isMem = false ∧ u.isFp = false ∧
    u.hasDelaySlot = false ∧ u.oldestFirst = false
  nullifying : u.hasNullifyingDelaySlot = true → u.hasDelaySlot = true
  branch : u.hasDelaySlot = true → u.isInt = true ∧ u.op.jumps = true
  /-- Every operation goes to at most one pipe. -/
  pipeInt : u.isInt = true → u.isMem = false ∧ u.isFp = false
  pipeMem : u.isMem = true → u.isFp = false
  fpOp : u.isFp = true → u.op = .other
  /-- What writes when it is executed waits to be the oldest, or is alone. -/
  oldest : u.op.writesNow = true → u.oldestFirst = true ∨ u.op = .ctc1
  now : u.op.writesNow = true → u.isInt = true
  probe : u.op = .tlbp → u.isMem = true
  sync : u.op.moves = true → u.serializingOp = !mtc0Plain u.dst
  /-- At most one kind of destination. -/
  hilo : u.hiloDstValid = true → u.dstValid = false ∧ u.fcrDstValid = false ∧ u.fpDstValid = false
  fcr : u.fcrDstValid = true → u.dstValid = false ∧ u.fpDstValid = false
  fp : u.fpDstValid = true → u.dstValid = false
  /-- A destination is an architectural register, and never `$0`. -/
  reg : u.dst < 32
  real : u.dstValid = true → u.dst ≠ 0

/-- A decoded operation. -/
structure Uop extends UopFields where
  ok : toUopFields.Ok

/-- The defaults of `decode_mips.sv` with an operation of its own. -/
def UopFields.blank (op : Op) (pc predTarget : BitVec 64) : UopFields where
  op := op
  pc := pc
  predTarget := predTarget
  isBr := false
  hasDelaySlot := false
  hasNullifyingDelaySlot := false
  serializingOp := false
  oldestFirst := false
  isInt := false
  isMem := false
  isFp := false
  isStore := false
  hasStoreData := false
  srcARa := false
  cpuCe1 := false
  cacheIsD := false
  cacheInval := false
  dst := 0
  dstValid := false
  hiloDstValid := false
  fcrDstValid := false
  fpDstValid := false

/-- The interrupt that decode puts in the place of an instruction. -/
def Uop.irq (pc predTarget : BitVec 64) : Uop where
  toUopFields := .blank .irq pc predTarget
  ok := by
    constructor
    case reg => exact (by decide : 0 < 32)
    all_goals
      intro h
      cases h

/-- The injected flushes. -/
inductive Xop where
  | xflush | xpgWbinv | xpgInv
  deriving DecidableEq, Repr

def Xop.op : Xop → Op
  | .xflush => .xflush
  | .xpgWbinv => .xpgWbinv
  | .xpgInv => .xpgInv

/-- The external flush that decode puts in the place of an instruction. -/
def Uop.xflush (x : Xop) (pc predTarget : BitVec 64) : Uop where
  toUopFields :=
    { UopFields.blank x.op pc predTarget with isInt := true, serializingOp := true }
  ok := by cases x <;> constructor <;> simp [UopFields.blank, Xop.op, Op.serializes, Op.writesNow,
    Op.moves]

/-- A fetched instruction: its own decode, its predecoded branch bit, and whether the fetch
itself faulted. -/
structure Insn where
  uop : Uop
  isBranch : Bool
  fault : Bool
  own : uop.op ≠ .irq ∧ uop.op.isXflush = false

/-- The registers and the sequence number that an allocation is given. -/
structure Tag where
  pdst : Nat
  oldPdst : Nat
  cp0Seq : Nat

/-- A reorder buffer entry (`rob_entry_t` with the completion bits and the parked FP
flags and address of its slot). -/
structure Entry where
  uop : Uop
  inDelaySlot : Bool
  tag : Tag
  /-- The int pipe has executed the operation, and with which operand. -/
  issued : Bool
  srcA : BitVec 64
  complete : Bool
  sdComplete : Bool
  faulted : Bool
  isIi : Bool
  isFpe : Bool
  fpSetFlags : Bool
  fpFlags : BitVec 6
  overflow : Bool
  trap : Bool
  isBadAddr : Bool
  isBusErr : Bool
  tlbRefill : Bool
  tlbInvalid : Bool
  tlbModified : Bool
  takeBr : Bool
  targetPc : BitVec 64
  data : BitVec 64
  addr : BitVec 64
  /-- The result of a TLB probe. -/
  tlbHit : Bool
  tlbIndex : BitVec 6

namespace Entry

/-- The completion bits of an entry, together. -/
def done (e : Entry) : Bool := e.sdComplete && e.complete

/-- `is_call`, `is_indirect` and `is_ret`. -/
def isCall (e : Entry) : Bool :=
  decide (e.uop.op = .jal) || decide (e.uop.op = .jalr) || decide (e.uop.op = .bal)

def isIndirect (e : Entry) : Bool := decide (e.uop.op = .jalr) || decide (e.uop.op = .jr)

def isRet (e : Entry) : Bool := decide (e.uop.op = .jr) && e.uop.srcARa

/-- `t_arch_fault` of an entry at the head. -/
def archFault (e : Entry) : Bool :=
  e.faulted &&
    (decide (e.uop.op = .break) || decide (e.uop.op = .syscall) || e.isIi ||
      decide (e.uop.op = .cpu) || e.isFpe || e.isBadAddr || e.isBusErr || e.overflow || e.trap ||
      decide (e.uop.op = .irq) || decide (e.uop.op = .fetchTlbMiss) ||
      decide (e.uop.op = .fetchMisaligned) || decide (e.uop.op = .fetchAddrError) ||
      e.tlbRefill || e.tlbInvalid || e.tlbModified)

/-- `t_rob_tail`: the entry of a newly allocated operation. -/
def alloc (u : Uop) (inDelaySlot : Bool) (t : Tag) : Entry where
  uop := u
  inDelaySlot := inDelaySlot
  tag := t
  issued := false
  srcA := 0
  complete := u.op.fold
  sdComplete := !(u.isMem && u.hasStoreData)
  faulted := u.op.foldFaults
  isIi := decide (u.op = .ii)
  isFpe := false
  fpSetFlags := false
  fpFlags := 0
  overflow := false
  trap := false
  isBadAddr := false
  isBusErr := false
  tlbRefill := decide (u.op = .fetchTlbMiss)
  tlbInvalid := decide (u.op = .fetchTlbInvalid)
  tlbModified := false
  takeBr := decide (u.op = .j)
  targetPc := if u.op = .j then u.predTarget else u.pc + 4
  data := 0
  addr := 0
  tlbHit := false
  tlbIndex := 0

end Entry

/-! ## Completions -/

/-- A completion on port 1 (`complete_bundle_1`). -/
structure IntResult where
  faulted : Bool
  restartPc : BitVec 64
  takeBr : Bool
  isIi : Bool
  overflow : Bool
  trap : Bool
  data : BitVec 64

/-- A completion on the FP port (`complete_bundle_2`). -/
structure FpResult where
  faulted : Bool
  fpFlags : BitVec 6
  data : BitVec 64

/-- A response of the memory pipe. -/
structure MemResult where
  badAddr : Bool
  busErr : Bool
  tlbRefill : Bool
  tlbInvalid : Bool
  tlbModified : Bool
  tlbHit : Bool
  tlbIndex : BitVec 6
  data : BitVec 64

namespace Entry

/-- The int pipe executes the entry with the operand `a`. -/
def start (a : BitVec 64) (e : Entry) : Entry := { e with issued := true, srcA := a }

/-- Port 1 reports a fault.  A branch-likely that is not taken always restarts the fetch. -/
def faultsWith (r : IntResult) (e : Entry) : Bool :=
  e.uop.op.faults (r.faulted || (e.uop.hasNullifyingDelaySlot && !r.takeBr))

/-- The operations of the int pipe that can overflow, trap or be reserved.  A branch takes
no exception of its own. -/
def mayTrap (e : Entry) : Bool := decide (e.uop.op = .other) && !e.uop.hasDelaySlot

/-- Port 1 completes an entry that was executed. -/
def intDone (r : IntResult) (e : Entry) : Entry :=
  if e.uop.isInt && e.issued && !e.complete then
    { e with
      complete := true
      faulted := e.faultsWith r
      targetPc := r.restartPc
      takeBr := r.takeBr
      data := r.data
      isIi := r.isIi && e.mayTrap
      overflow := r.overflow && e.mayTrap
      trap := r.trap && e.mayTrap }
  else e

/-- The FP port completes an FP operation. -/
def fpDone (r : FpResult) (e : Entry) : Entry :=
  if e.uop.isFp && !e.complete then
    { e with
      complete := true, faulted := r.faulted, isFpe := r.faulted, fpSetFlags := true
      fpFlags := r.fpFlags, data := r.data }
  else e

/-- A TLB probe takes no exception. -/
def memResult (r : MemResult) (e : Entry) : MemResult :=
  if e.uop.op = .tlbp then
    { r with
      badAddr := false, busErr := false, tlbRefill := false, tlbInvalid := false
      tlbModified := false }
  else r

/-- The memory pipe completes a memory operation. -/
def memDone (r : MemResult) (e : Entry) : Entry :=
  if e.uop.isMem && !e.complete then
    let r := e.memResult r
    { e with
      complete := true, data := r.data, addr := r.data
      faulted := r.badAddr || r.busErr || r.tlbRefill || r.tlbInvalid || r.tlbModified
      tlbRefill := r.tlbRefill, tlbInvalid := r.tlbInvalid, tlbModified := r.tlbModified
      isBadAddr := r.badAddr, isBusErr := r.busErr
      tlbHit := r.tlbHit, tlbIndex := r.tlbIndex }
  else e

/-- The data of a store arrives. -/
def sdDone (e : Entry) : Entry := { e with sdComplete := true }

end Entry

/-! ## The control machine -/

/-- The states of `state_t`. -/
inductive FsmState where
  | flushForHalt | halt | haltWaitForRestart | rat | drain | active | archFault | writeEpc
  | exceptionDrain | allocForSerialize | waitForSerializeAndRestart | cacheFlush
  | serializeInFaultedDelaySlot | waitForSerializeInFaultedDelaySlot | dead
  deriving DecidableEq, Repr

/-- The registers of the control machine. -/
structure Regs where
  state : FsmState
  pendingFault : Bool
  oldestFirstPending : Bool
  inDelaySlot : Bool
  dsDone : Bool
  hasDelaySlot : Bool
  hasNullifyingDelaySlot : Bool
  takeBr : Bool
  machineClr : Bool
  restartPc : BitVec 64
  restartValid : Bool
  gotRestartAck : Bool
  lastBranchTarget : BitVec 64
  l1iFlushComplete : Bool
  l1dFlushComplete : Bool
  l2FlushComplete : Bool
  flushReqL1d : Bool
  flushLineReqL1i : Bool
  flushLineIdxL1i : Nat
  flushClReq : Bool
  flushClAddr : BitVec 64
  flushClInval : Bool
  flushPgReq : Bool
  xflushPend : Bool
  xflushPpn : BitVec 64
  xflushWhole : Bool
  xflushDrop : Bool
  xflushDone : Bool
  epc : BitVec 64
  badvaddr : BitVec 64
  hasBadvaddr : Bool
  cause : BitVec 5
  ce : BitVec 2
  tlbRefill : Bool
  xtlbRefill : Bool
  saveToTlbRegs : Bool
  excInDelay : Bool

/-- The state of the core: its registers, the reorder buffer and the decode queue (both
oldest first), and the decode stage's delay slot tracker. -/
structure State where
  regs : Regs
  rob : List Entry
  dq : List Uop
  decDelaySlot : Bool

/-- The sizes of the machine. -/
structure Params where
  robEntries : Nat
  dqEntries : Nat
  l1iSets : Nat
  robEntries_pos : 2 ≤ robEntries
  dqEntries_pos : 2 ≤ dqEntries

/-- The inputs of a cycle. -/
structure Input where
  /-- The two oldest instructions of the fetch queue. -/
  insn : Option Insn
  insnTwo : Option Insn
  irqPending : Bool
  /-- The queues and the free lists. -/
  uqFull : Bool
  uqNextFull : Bool
  enough : Bool
  enoughNext : Bool
  tag : Tag
  tagTwo : Tag
  /-- The execution units; an entry is named by its distance from the head. -/
  start : Option Nat
  startA : BitVec 64
  intDone : Option (Nat × IntResult)
  fpDone : Option (Nat × FpResult)
  memDone : Option (Nat × MemResult)
  sdDone : Option Nat
  /-- `((r_rob_inflight & ~r_rob_is_mem) == 0) && !w_next_color_busy && t_divide_ready`. -/
  drained : Bool
  stepOk : Bool
  singleStep : Bool
  /-- The fetch unit and the caches. -/
  restartAck : Bool
  l1iFlushComplete : Bool
  l1dFlushComplete : Bool
  l2FlushComplete : Bool
  /-- The requests from outside. -/
  resume : Bool
  resumePc : BitVec 64
  extFlushReq : Bool
  extFlushPpn : BitVec 64
  extFlushWhole : Bool
  extFlushDrop : Bool
  /-- The CP0 state. -/
  srExl : Bool
  srBev : Bool
  in64bMode : Bool

/-- The next registers and the combinational outputs of a cycle. -/
structure Comb where
  n : Regs
  alloc : Bool
  allocTwo : Bool
  retire : Bool
  retireTwo : Bool
  bumpRobHead : Bool
  ratCopy : Bool
  clrRob : Bool
  clrDq : Bool
  fcsrWe : Bool
  fcsrCause6 : BitVec 6
  fcsrFlags5 : BitVec 5
  wrEpc : Bool
  wrCause : Bool
  wrBadvaddr : Bool
  restartComplete : Bool

section Fsm

variable (p : Params) (s : State) (i : Input)

/-- A faulting completion on port 1. -/
def intFaults : Bool :=
  match i.intDone with
  | none => false
  | some (k, r) => 
    s.rob[k]?.any fun e =>
      e.uop.isInt && e.issued && !e.complete && e.faultsWith r

/-- A faulting completion on the FP port. -/
def fpFaults : Bool :=
  match i.fpDone with
  | none => false
  | some (k, r) => s.rob[k]?.any fun e => e.uop.isFp && !e.complete && r.faulted

/-- The defaults of the control machine's combinational block. -/
def tick : Comb where
  n :=
    { s.regs with
      pendingFault := s.regs.pendingFault || intFaults s i || fpFaults s i
      restartValid := false
      gotRestartAck :=
        if s.regs.state = .active then false else s.regs.gotRestartAck || i.restartAck
      l1iFlushComplete := s.regs.l1iFlushComplete || i.l1iFlushComplete
      l1dFlushComplete := s.regs.l1dFlushComplete || i.l1dFlushComplete
      l2FlushComplete := s.regs.l2FlushComplete || i.l2FlushComplete
      flushReqL1d := false
      flushLineReqL1i := false
      flushClReq := false
      flushPgReq := false
      xflushPend := s.regs.xflushPend || i.extFlushReq
      xflushPpn :=
        if i.extFlushReq && !s.regs.xflushPend then i.extFlushPpn else s.regs.xflushPpn
      xflushWhole :=
        if i.extFlushReq && !s.regs.xflushPend then i.extFlushWhole else s.regs.xflushWhole
      xflushDrop :=
        if i.extFlushReq && !s.regs.xflushPend then i.extFlushDrop else s.regs.xflushDrop
      xflushDone := false
      saveToTlbRegs := false }
  alloc := false
  allocTwo := false
  retire := false
  retireTwo := false
  bumpRobHead := false
  ratCopy := false
  clrRob := false
  clrDq := false
  fcsrWe := false
  fcsrCause6 := 0
  fcsrFlags5 := 0
  wrEpc := false
  wrCause := false
  wrBadvaddr := false
  restartComplete := false

/-- The second entry is there and complete. -/
def nextDone : List Entry → Bool
  | [] => false
  | e :: _ => e.done

/-- `t_can_retire_rob_head`.  A faulted branch waits for its delay slot: a regular one must
have completed, a nullifying one must be there. -/
def canRetireRobHead : Bool :=
  match s.rob with
  | [] => false
  | e :: es =>
    e.done && i.stepOk &&
      if e.faulted then
        if e.uop.hasNullifyingDelaySlot then !es.isEmpty
        else if e.uop.hasDelaySlot then nextDone es
        else true
      else true

/-- `t_faulted_head_and_serializing_delay`. -/
def faultedHeadAndSerializingDelay : Bool :=
  match s.rob, s.dq with
  | [e], u :: _ =>
    e.done && (e.uop.hasDelaySlot || e.uop.hasNullifyingDelaySlot) && e.faulted &&
      u.serializingOp
  | _, _ => false

/-- There is room for one operation. -/
def room : Bool :=
  decide (s.rob.length < p.robEntries) && !i.uqFull && !s.dq.isEmpty && i.enough

/-- `t_alloc` in `ACTIVE`. -/
def canAlloc : Bool :=
  room p s i && !s.regs.oldestFirstPending && (!s.regs.pendingFault || s.regs.inDelaySlot)

/-- `t_alloc_two` in `ACTIVE`. -/
def canAllocTwo : Bool :=
  match s.dq with
  | u :: v :: _ =>
    canAlloc p s i && (!u.isBr || !v.isBr) && !u.oldestFirst && !v.serializingOp &&
      !v.oldestFirst && decide (s.rob.length + 1 < p.robEntries) && !i.uqNextFull &&
      i.enoughNext
  | _ => false

/-- Allocate from the head of the decode queue in `ACTIVE`, or start the allocation of a
serializing operation once the reorder buffer is empty. -/
def allocate (c : Comb) : Comb :=
  match s.dq with
  | [] => c
  | u :: _ =>
    if u.serializingOp then
      if s.rob.isEmpty then { c with n := { c.n with state := .allocForSerialize } } else c
    else { c with alloc := canAlloc p s i, allocTwo := canAllocTwo p s i }

/-- The restart address after the entry at the head. -/
def resumeAt (e : Entry) : BitVec 64 :=
  if e.inDelaySlot then s.regs.lastBranchTarget else e.targetPc

/-- A faulted entry reaches the head in `ACTIVE`: an architectural fault is taken, a
mispredicted branch (or an operation that refetches) restarts the fetch and drains. -/
def faultedHead (e : Entry) (c : Comb) : Comb :=
  let c :=
    { c with
      n :=
        { c.n with
          machineClr := true
          restartPc := resumeAt s e
          hasDelaySlot := e.uop.hasDelaySlot
          hasNullifyingDelaySlot := e.uop.hasNullifyingDelaySlot
          takeBr := e.takeBr } }
  if e.archFault then { c with n := { c.n with state := .archFault } }
  else
    { c with
      bumpRobHead := true
      n :=
        { c.n with
          dsDone := !e.uop.hasDelaySlot
          state := .drain
          restartValid := true } }

/-- `t_retire_two`. -/
def canRetireTwo (e : Entry) : List Entry → Bool
  | [] => false
  | f :: _ =>
    !e.faulted && !f.faulted && e.done && f.done && (!e.uop.isBr || !f.uop.isBr) && !f.isRet &&
      !f.isCall && !f.uop.op.isCp0Wr && !f.uop.hiloDstValid && !f.uop.fcrDstValid &&
      !i.singleStep

/-- The FCSR update of the one or two entries that retire in `ACTIVE`. -/
def accumulate (e : Entry) (es : List Entry) (c : Comb) : Comb :=
  let c :=
    if c.retire && e.fpSetFlags then
      { c with fcsrWe := true, fcsrCause6 := e.fpFlags, fcsrFlags5 := e.fpFlags.truncate 5 }
    else c
  match es with
  | [] => c
  | f :: _ =>
    if c.retireTwo && f.fpSetFlags then
      { c with
        fcsrWe := true
        fcsrCause6 := f.fpFlags
        fcsrFlags5 := c.fcsrFlags5 ||| f.fpFlags.truncate 5 }
    else c

/-- The head retires in `ACTIVE`. -/
def retireHead (e : Entry) (es : List Entry) (c : Comb) : Comb :=
  let c := if e.faulted then faultedHead s e c else allocate p s i c
  let c :=
    { c with
      retire := e.done && !e.archFault
      retireTwo := canRetireTwo i e es }
  accumulate e es c

/-- `ACTIVE`. -/
def active (c : Comb) : Comb :=
  if faultedHeadAndSerializingDelay s then
    { c with n := { c.n with state := .serializeInFaultedDelaySlot } }
  else if canRetireRobHead s i then
    match s.rob with
    | [] => c
    | e :: es => retireHead p s i e es c
  else allocate p s i c

/-- The delay slot of the branch that is being drained.  A nullified slot is dropped
without waiting for it. -/
def drainSlot (e : Entry) (c : Comb) : Comb :=
  let r := s.regs
  if r.hasNullifyingDelaySlot && (e.done || !r.takeBr) && !r.dsDone then
    let c := { c with n := { c.n with dsDone := true } }
    if r.takeBr then
      if e.archFault then { c with n := { c.n with state := .archFault } }
      else { c with retire := true }
    else c
  else if r.hasDelaySlot && e.done && !r.dsDone then
    let c := { c with n := { c.n with dsDone := true } }
    if e.archFault then
      { c with
        n := { c.n with state := .archFault, machineClr := true, restartPc := resumeAt s e } }
    else { c with retire := true }
  else c

/-- The slot is at the head while it is awaited. -/
def drainHead (c : Comb) : Comb :=
  match s.rob with
  | [] => c
  | e :: _ => drainSlot s e c

/-- `DRAIN`. -/
def drain (c : Comb) : Comb :=
  let c := drainHead s c
  if i.drained && s.regs.dsDone then { c with n := { c.n with state := .rat } } else c

/-- `RAT`: copy the retirement state and wait for the fetch unit. -/
def rat (c : Comb) : Comb :=
  let c :=
    { c with
      ratCopy := true
      clrRob := true
      clrDq := true
      n := { c.n with machineClr := false } }
  if c.n.gotRestartAck then
    { c with
      restartComplete := true
      n := { c.n with state := .active, pendingFault := false, dsDone := false } }
  else c

/-- Restart the fetch after the serializing operation at the head. -/
def restartAfter (target : BitVec 64) (c : Comb) : Comb :=
  { c with
    clrDq := true
    n := { c.n with restartPc := target, restartValid := true, pendingFault := false } }

/-- The bits of the address that index the L1I. -/
def l1iIdx (a : BitVec 64) : Nat := a.toNat / 16 % p.l1iSets

/-- The page of the pending external flush. -/
def xflushAddr : BitVec 64 := s.regs.xflushPpn <<< 12

/-- A cache operation at the head asks for its flush.  The completes of the caches it does
not touch are set at once. -/
def requestFlush (e : Entry) (c : Comb) : Comb :=
  let c := { c with n := { c.n with state := .cacheFlush } }
  if e.uop.op = .xflush then
    { c with n := { c.n with flushReqL1d := true, l1iFlushComplete := true } }
  else if e.uop.op.isXflush then
    { c with
      n :=
        { c.n with
          flushPgReq := true
          flushClAddr := xflushAddr s
          flushClInval := decide (e.uop.op = .xpgInv)
          l1iFlushComplete := true
          l2FlushComplete := true } }
  else if e.uop.cacheIsD then
    { c with
      n :=
        { c.n with
          flushClReq := true
          flushClAddr := e.data &&& 0x1fffffff
          flushClInval := e.uop.cacheInval
          l1iFlushComplete := true
          l2FlushComplete := true } }
  else
    { c with
      n :=
        { c.n with
          flushLineReqL1i := true
          flushLineIdxL1i := l1iIdx p e.data
          l1dFlushComplete := true
          l2FlushComplete := true } }

/-- `WAIT_FOR_SERIALIZE_AND_RESTART`. -/
def waitForSerialize (c : Comb) : Comb :=
  match s.rob with
  | [] => c
  | e :: _ =>
    if e.done then
      if decide (e.uop.op = .cacheOp) || e.uop.op.isXflush then requestFlush p s e c
      else
        let c := restartAfter (resumeAt s e) c
        if c.n.gotRestartAck then { c with n := { c.n with state := .active } } else c
    else c

/-- All three caches have completed. -/
def allFlushed (c : Comb) : Bool :=
  c.n.l1iFlushComplete && c.n.l1dFlushComplete && c.n.l2FlushComplete

/-- `CACHE_FLUSH`: wait for the caches, then restart.  An injected flush runs the
instruction again whose place it took. -/
def cacheFlush (c : Comb) : Comb :=
  match s.rob with
  | [] => c
  | e :: _ =>
    if allFlushed c then
      let c := restartAfter (if e.uop.op.isXflush then e.uop.pc else resumeAt s e) c
      if c.n.gotRestartAck then
        let c :=
          { c with
            n :=
              { c.n with
                l1iFlushComplete := false
                l1dFlushComplete := false
                l2FlushComplete := false
                state := .active } }
        if e.uop.op.isXflush then
          { c with n := { c.n with xflushPend := false, xflushDone := true } }
        else c
      else c
    else c

/-- `FLUSH_FOR_HALT`. -/
def flushForHalt (c : Comb) : Comb :=
  if allFlushed c then
    { c with
      n :=
        { c.n with
          state := .halt
          l1iFlushComplete := false
          l1dFlushComplete := false
          l2FlushComplete := false } }
  else c

/-- `HALT`. -/
def halt (c : Comb) : Comb :=
  if i.resume then
    { c with
      clrDq := true
      n :=
        { c.n with restartPc := i.resumePc, restartValid := true, state := .haltWaitForRestart } }
  else c

/-- `HALT_WAIT_FOR_RESTART`. -/
def haltWaitForRestart (c : Comb) : Comb :=
  let c := { c with n := { c.n with pendingFault := false } }
  if c.n.gotRestartAck then { c with n := { c.n with state := .active } } else c

/-- The fetch faults report their own address. -/
def Op.isFetchFault : Op → Bool
  | .fetchTlbMiss | .fetchTlbInvalid | .fetchMisaligned | .fetchAddrError => true
  | _ => false

/-- What `ARCH_FAULT` finds out about the faulting entry. -/
structure ExcInfo where
  cause : BitVec 5
  ce : BitVec 2
  hasBadvaddr : Bool
  tlbRefill : Bool
  xtlbRefill : Bool
  saveToTlbRegs : Bool
  deriving DecidableEq, Repr

/-- The first condition of the faulting entry that holds decides. -/
def excInfo (e : Entry) : ExcInfo :=
  let x : ExcInfo := ⟨s.regs.cause, s.regs.ce, false, false, false, false⟩
  if e.uop.op = .break then { x with cause := 9 }
  else if e.uop.op = .syscall then { x with cause := 8 }
  else if e.isIi then { x with cause := 10 }
  else if e.uop.op = .cpu then { x with cause := 11, ce := if e.uop.cpuCe1 then 1 else 0 }
  else if e.isFpe then { x with cause := 15 }
  else if e.uop.op = .fetchMisaligned ∨ e.uop.op = .fetchAddrError then
    { x with hasBadvaddr := true, cause := 4 }
  else if e.isBadAddr then
    { x with hasBadvaddr := true, cause := if e.uop.isStore then 5 else 4 }
  else if e.isBusErr then { x with cause := 7 }
  else if e.uop.op = .irq then { x with cause := 0 }
  else if e.overflow then { x with cause := 12 }
  else if e.trap then { x with cause := 13 }
  else if e.tlbRefill || e.tlbInvalid then
    { x with
      tlbRefill := e.tlbRefill && !i.srExl
      xtlbRefill := e.tlbRefill && !i.srExl && i.in64bMode
      saveToTlbRegs := true
      cause := if e.uop.isStore then 3 else 2
      hasBadvaddr := true }
  else if e.tlbModified then { x with cause := 1, saveToTlbRegs := true, hasBadvaddr := true }
  else x

/-- The FCSR write of a trapping FP operation: its cause without its flags.  The tests
before it in the chain of causes take precedence. -/
def trapsFp (e : Entry) : Bool :=
  e.isFpe && !decide (e.uop.op = .break) && !decide (e.uop.op = .syscall) && !e.isIi &&
    !decide (e.uop.op = .cpu)

/-- `ARCH_FAULT`. -/
def archFault (c : Comb) : Comb :=
  match s.rob with
  | [] => { c with n := { c.n with state := .writeEpc } }
  | e :: _ =>
    let c :=
      if trapsFp e then { c with fcsrWe := true, fcsrCause6 := e.fpFlags } else c
    { c with
      bumpRobHead := true
      n :=
        { c.n with
          cause := (excInfo s i e).cause
          ce := (excInfo s i e).ce
          hasBadvaddr := (excInfo s i e).hasBadvaddr
          tlbRefill := (excInfo s i e).tlbRefill
          xtlbRefill := (excInfo s i e).xtlbRefill
          saveToTlbRegs := (excInfo s i e).saveToTlbRegs
          badvaddr := if e.uop.op.isFetchFault then e.uop.pc else e.addr
          state := .writeEpc
          epc := if e.inDelaySlot then e.uop.pc - 4 else e.uop.pc
          excInDelay := e.inDelaySlot } }

/-- The address of the exception vector. -/
def excVector : BitVec 64 :=
  (((if i.srBev then 0xbfc00200#32 else 0x80000000#32) |||
    (if s.regs.tlbRefill then (if s.regs.xtlbRefill then 0x80#32 else 0x0#32)
      else 0x180#32))).signExtend 64

/-- `WRITE_EPC`. -/
def writeEpc (c : Comb) : Comb :=
  { c with
    wrEpc := true
    wrCause := true
    wrBadvaddr := s.regs.hasBadvaddr
    clrDq := true
    n :=
      { c.n with
        machineClr := true
        restartPc := excVector s i
        restartValid := true
        dsDone := true
        state := .exceptionDrain } }

/-- `EXCEPTION_DRAIN`. -/
def exceptionDrain (c : Comb) : Comb :=
  if i.drained then { c with n := { c.n with state := .rat } } else c

/-- The allocation of a serializing operation, and the state that waits for it. -/
def allocAlone (wait : FsmState) (c : Comb) : Comb :=
  if room p s i then { c with alloc := true, n := { c.n with state := wait } } else c

/-- `WAIT_FOR_SERIALIZE_IN_FAULTED_DELAY_SLOT`. -/
def waitInSlot (c : Comb) : Comb :=
  match s.rob with
  | _ :: e :: _ =>
    if e.done then
      if e.faulted then { c with bumpRobHead := true, n := { c.n with state := .archFault } }
      else { c with n := { c.n with pendingFault := false, state := .active } }
    else c
  | _ => c

/-- The arm of the current state. -/
def arm (c : Comb) : Comb :=
  match s.regs.state with
  | .active => active p s i c
  | .drain => drain s i c
  | .exceptionDrain => exceptionDrain i c
  | .rat => rat c
  | .allocForSerialize => allocAlone p s i .waitForSerializeAndRestart c
  | .waitForSerializeAndRestart => waitForSerialize p s c
  | .cacheFlush => cacheFlush s c
  | .flushForHalt => flushForHalt c
  | .halt => halt i c
  | .haltWaitForRestart => haltWaitForRestart c
  | .archFault => archFault s i c
  | .writeEpc => writeEpc s i c
  | .serializeInFaultedDelaySlot => allocAlone p s i .waitForSerializeInFaultedDelaySlot c
  | .waitForSerializeInFaultedDelaySlot => waitInSlot s c
  | .dead => c

/-- `n_oldest_first_pending`. -/
def oldestFirst (c : Comb) : Bool :=
  if c.clrRob then false
  else if (c.retire && s.rob[0]?.any (·.uop.oldestFirst)) ||
      (c.retireTwo && s.rob[1]?.any (·.uop.oldestFirst)) then false
  else if c.alloc && s.dq[0]?.any (·.oldestFirst) then true
  else s.regs.oldestFirstPending

/-- `n_in_delay_slot`. -/
def slotNext (c : Comb) : Bool :=
  if c.alloc then (if c.allocTwo then s.dq[1]? else s.dq[0]?).any (·.hasDelaySlot)
  else if c.clrDq || c.clrRob then false
  else s.regs.inDelaySlot

/-- An entry whose target `r_last_branch_target` keeps. -/
def Entry.isJump (e : Entry) : Bool := e.uop.isBr || e.isCall || e.isIndirect

/-- `r_last_branch_target`. -/
def lastTarget (c : Comb) : BitVec 64 :=
  match s.rob with
  | e :: f :: _ =>
    if c.retireTwo && f.isJump then f.targetPc
    else if c.retire && e.isJump then e.targetPc
    else s.regs.lastBranchTarget
  | [e] => if c.retire && e.isJump then e.targetPc else s.regs.lastBranchTarget
  | [] => s.regs.lastBranchTarget

/-- The registers that are updated in every state. -/
def finish (c : Comb) : Comb :=
  { c with
    n :=
      { c.n with
        oldestFirstPending := oldestFirst s c
        inDelaySlot := slotNext s c
        lastBranchTarget := lastTarget s c } }

/-- The combinational outputs of a cycle. -/
def comb : Comb := finish s (arm p s i (tick s i))

end Fsm

/-! ## The reorder buffer and the decode queue -/

section Queues

variable (p : Params) (s : State) (i : Input)

/-- `head_of_rob_ptr_valid`: the head may issue an oldest-first operation.  The nullified
slot of a branch-likely may not. -/
def headValid (r : Regs) : Bool :=
  decide (r.state = .active) ||
    (decide (r.state = .drain) && !r.dsDone && !(r.hasNullifyingDelaySlot && !r.takeBr))

/-- `head_of_rob_ds_committable`. -/
def dsCommittable : Bool :=
  s.rob[0]?.any fun e =>
    e.done && e.faulted && e.uop.hasDelaySlot && !e.uop.hasNullifyingDelaySlot

/-- The scheduler's rule for the entry `k` places from the head. -/
def mayStart (k : Nat) (e : Entry) : Bool :=
  e.uop.isInt && !e.issued && !e.complete && !s.regs.dsDone &&
    (!e.uop.oldestFirst || (decide (k = 0) && headValid s.regs) ||
      (decide (k = 1) && dsCommittable s))

/-- The entry that the int pipe executes in this cycle. -/
def executing : Option Entry :=
  match i.start with
  | none => none
  | some k => s.rob[k]?.filter (mayStart s k)

/-- Apply a result to the entry it names. -/
def applyAt {ρ : Type} (f : ρ → Entry → Entry) (k : Nat) : Option (Nat × ρ) → Entry → Entry
  | none, e => e
  | some (j, r), e => if j = k then f r e else e

/-- The entry `k` places from the head after the execution and the completions of a
cycle. -/
def Entry.next (k : Nat) (e : Entry) : Entry :=
  let e' := applyAt Entry.intDone k i.intDone e
  let e' := applyAt Entry.fpDone k i.fpDone e'
  let e' := applyAt Entry.memDone k i.memDone e'
  let e' := if i.sdDone = some k then e'.sdDone else e'
  if i.start = some k ∧ mayStart s k e then e'.start i.startA else e'

/-- The reorder buffer after the execution and the completions of a cycle. -/
def progress : List Entry := s.rob.mapIdx fun k e => e.next s i k

/-- How many entries leave at the head. -/
def leaving (c : Comb) : Nat :=
  if c.retire || c.bumpRobHead then (if c.retireTwo then 2 else 1) else 0

/-- The entries that retire in a cycle, oldest first. -/
def retiring (s : State) (c : Comb) : List Entry :=
  if c.retire then s.rob.take (if c.retireTwo then 2 else 1) else []

/-- How many operations are allocated. -/
def allocating (c : Comb) : Nat :=
  if c.alloc then (if c.allocTwo then 2 else 1) else 0

/-- The entries that are allocated. -/
def newEntries (c : Comb) : List Entry :=
  match s.dq with
  | [] => []
  | u :: us =>
    if c.alloc then
      Entry.alloc u s.regs.inDelaySlot i.tag ::
        match us with
        | [] => []
        | v :: _ => if c.allocTwo then [Entry.alloc v u.hasDelaySlot i.tagTwo] else []
    else []

/-- The next reorder buffer. -/
def nextRob (c : Comb) : List Entry :=
  if c.clrRob then [] else (progress s i).drop (leaving c) ++ newEntries s i c

/-- The instructions that decode pushes in this cycle. -/
def pushed (c : Comb) : List Insn :=
  if c.clrDq || s.regs.oldestFirstPending || !decide (s.dq.length < p.dqEntries) then []
  else
    match i.insn, i.insnTwo with
    | none, _ => []
    | some a, none => [a]
    | some a, some b => if s.dq.length + 1 < p.dqEntries then [a, b] else [a]

/-- `w_xflush_op`. -/
def xflushOp (r : Regs) : Xop :=
  if r.xflushWhole then .xflush else if r.xflushDrop then .xpgInv else .xpgWbinv

/-- Decode an instruction: outside a delay slot, a pending interrupt or external flush takes
its place. -/
def decode (inSlot : Bool) (a : Insn) : Uop :=
  if i.irqPending && !inSlot then Uop.irq a.uop.pc a.uop.predTarget
  else if s.regs.xflushPend && !inSlot then
    Uop.xflush (xflushOp s.regs) a.uop.pc a.uop.predTarget
  else a.uop

/-- The operations that are pushed. -/
def decoded : List Insn → List Uop
  | [] => []
  | [a] => [decode s i s.decDelaySlot a]
  | a :: b :: _ =>
    [decode s i s.decDelaySlot a, decode s i (!s.decDelaySlot && a.isBranch) b]

/-- `n_dec_delay_slot`. -/
def trackSlot : List Insn → Bool
  | [] => s.decDelaySlot
  | [a] => if s.decDelaySlot then false else a.isBranch
  | a :: b :: _ => if s.decDelaySlot then b.isBranch else !a.isBranch && b.isBranch

/-- One cycle. -/
def next : State :=
  let c := comb p s i
  { regs := c.n
    rob := nextRob s i c
    dq := if c.clrDq then [] else s.dq.drop (allocating c) ++ decoded s i (pushed p s i c)
    decDelaySlot := if c.clrRob || c.clrDq then false else trackSlot s (pushed p s i c) }

end Queues

/-- The reset values. -/
def reset : State where
  regs :=
    { state := .flushForHalt, pendingFault := false, oldestFirstPending := false
      inDelaySlot := false, dsDone := false, hasDelaySlot := false
      hasNullifyingDelaySlot := false, takeBr := false, machineClr := false, restartPc := 0
      restartValid := false, gotRestartAck := false, lastBranchTarget := 0
      l1iFlushComplete := false, l1dFlushComplete := false, l2FlushComplete := false
      flushReqL1d := false, flushLineReqL1i := false, flushLineIdxL1i := 0
      flushClReq := false, flushClAddr := 0, flushClInval := false, flushPgReq := false
      xflushPend := false, xflushPpn := 0, xflushWhole := false, xflushDrop := false
      xflushDone := false, epc := 0, badvaddr := 0, hasBadvaddr := false, cause := 0, ce := 0
      tlbRefill := false, xtlbRefill := false, saveToTlbRegs := false, excInDelay := false }
  rob := []
  dq := []
  decDelaySlot := false

/-! ## The default machine -/

/-- The sizes of `machine.vh`. -/
def machine : Params := ⟨16, 4, 1024, by decide, by decide⟩

/-- A cycle in which nothing arrives. -/
def quiet : Input where
  insn := none
  insnTwo := none
  irqPending := false
  uqFull := false
  uqNextFull := false
  enough := true
  enoughNext := true
  tag := ⟨0, 0, 0⟩
  tagTwo := ⟨0, 0, 0⟩
  start := none
  startA := 0
  intDone := none
  fpDone := none
  memDone := none
  sdDone := none
  drained := true
  stepOk := true
  singleStep := false
  restartAck := false
  l1iFlushComplete := false
  l1dFlushComplete := false
  l2FlushComplete := false
  resume := false
  resumePc := 0
  extFlushReq := false
  extFlushPpn := 0
  extFlushWhole := false
  extFlushDrop := false
  srExl := false
  srBev := false
  in64bMode := false

/-- From reset to the first fetch: the initial flushes, the resume request and the
acknowledge of the restart. -/
def boot : List Input :=
  [{ quiet with l1iFlushComplete := true, l1dFlushComplete := true, l2FlushComplete := true },
   { quiet with resume := true, resumePc := 0x1000 }, { quiet with restartAck := true }]

/-- A conditional branch. -/
def Uop.branch (likely : Bool) (pc : BitVec 64) : Uop where
  toUopFields :=
    { UopFields.blank .other pc 0 with
      isBr := true, hasDelaySlot := true, hasNullifyingDelaySlot := likely, isInt := true }
  ok := by cases likely <;> constructor <;> simp [UopFields.blank, Op.serializes, Op.isXflush,
    Op.jumps, Op.writesNow, Op.moves]

/-- Decode does not inject a branch. -/
theorem Uop.branch_own :
    (Uop.branch false 0x1000).op ≠ .irq ∧ (Uop.branch false 0x1000).op.isXflush = false := by
  decide

/-- An FP arithmetic operation. -/
def Uop.fpArith (dst : Fin 32) (pc : BitVec 64) : Uop where
  toUopFields := { UopFields.blank .other pc 0 with isFp := true, dst := dst, fpDstValid := true }
  ok := by
    constructor <;> simp [UopFields.blank, Op.serializes, Op.isXflush, Op.writesNow, Op.moves]

theorem Op.ctc1_serializes : Op.ctc1.serializes = true := rfl

/-- A serializing operation of the int pipe. -/
def Uop.serial (op : Op) (h : op.serializes = true) (isD inval : Bool) (pc : BitVec 64) : Uop where
  toUopFields :=
    { UopFields.blank op pc 0 with
      isInt := true, serializingOp := true, dst := 12, fcrDstValid := decide (op = .ctc1)
      cacheIsD := isD, cacheInval := inval }
  ok := by
    constructor
    case oldest =>
      revert h
      cases op <;> simp [UopFields.blank, Op.serializes, Op.writesNow]
    case probe =>
      intro hp
      change op = .tlbp at hp
      simp [hp, Op.serializes] at h
    case sync => exact fun _ => rfl
    case reg => exact (by decide : 12 < 32)
    all_goals simp_all [UopFields.blank]

/-- A result of the int pipe. -/
def IntResult.of (faulted : Bool) (restartPc : BitVec 64) (takeBr : Bool) (data : BitVec 64) :
    IntResult := ⟨faulted, restartPc, takeBr, false, false, false, data⟩

end Core

end R9999
