import R9999.Hw.History
import R9999.Frontend.Control
import R9999.Frontend.Group

/-!
# Fetch and retirement

The instruction cache and the core in one machine.  Fetched instructions wait in the fetch
queue, each with its predicted direction, and carry the direction through the decode queue
(`br_pred` of `uop_t`) into the reorder buffer.  The int pipe compares it with the outcome.
The core asks for a restart; the fetch unit acknowledges it and clears its queue.

There are two copies of the branch history (`l1i.sv`).  `spec` takes a bit when a group is
pushed, `arch` takes one in the cycle behind the one in which a branch retires, and `spec` is
restored from `arch` when a restart is acknowledged.

A ledger that the hardware does not have records what has been fetched since the last
acknowledge, with the history at each fetch, and what has left the reorder buffer of it.
-/

namespace R9999

namespace Frontend

open Core (Entry Insn Comb IntResult Params comb)
open Mmu (Fetch FetchIn Push)
open Hw (shiftIn shiftAll)

/-- `GBL_HIST_LEN`. -/
abbrev histLen : Nat := 48

/-- `N_FQ_ENTRIES`. -/
abbrev fqEntries : Nat := 8

/-- A push of one or two instructions. -/
structure Group where
  /-- How many instructions were fetched before it since the restart. -/
  older : Nat
  /-- The speculative history in the cycle of the push (`r_spec_gbl_hist`). -/
  hist : BitVec histLen
  /-- How many of the older instructions were pushed when the tables were read. -/
  seen : Nat
  /-- The history that the tables were read with (`r_last_spec_gbl_hist`). -/
  index : BitVec histLen
  deriving DecidableEq

/-- What has happened since the last acknowledge. -/
structure Ledger where
  /-- The history with which the fetch began. -/
  base : BitVec histLen
  /-- The instructions pushed into the fetch queue, oldest first. -/
  fetched : List FetchInsn
  groups : List Group
  /-- How many were fetched before the last cycle. -/
  before : Nat
  /-- Those of them that have left the reorder buffer, as they left. -/
  left : List (Entry × FetchInsn)
  /-- How many entries of the reorder buffer are from before the acknowledge. -/
  older : Nat

/-- The instruction cache and the core. -/
structure HistState where
  fetch : Fetch
  /-- `r_delay_slot`. -/
  delaySlot : Bool
  fq : List FetchInsn
  restartAck : Bool
  spec : BitVec histLen
  arch : BitVec histLen
  lastSpec : BitVec histLen
  branchValid : Bool
  tookBranch : Bool
  core : Core.State
  /-- The instructions that the entries and the decoded operations come from. -/
  robTags : List FetchInsn
  dqTags : List FetchInsn
  ledger : Ledger

/-- What a cycle is given: the caches, the TLB, the predictor, and the execution units. -/
structure HistIn where
  fetch : FetchIn
  line : Line
  core : Core.Input

section Machine

variable (p : Params) (s : HistState) (i : HistIn)

/-- `fq_full`. -/
def fqFull : Bool := decide (fqEntries ≤ s.fq.length)

/-- `fq_full2`. -/
def fqFull2 : Bool := decide (fqEntries ≤ s.fq.length + 1)

/-- What the fetch control is given. -/
def fetchIn : FetchIn :=
  { i.fetch with
    restartValid := s.core.regs.restartValid
    restartPc := s.core.regs.restartPc
    flushReq := false
    flushLineReq := s.core.regs.flushLineReqL1i
    fqFull := fqFull s
    predicted := i.line.nextPc s.fetch.cachePc s.delaySlot (fqFull2 s) s.fetch.pc
    two := i.line.two s.fetch.cachePc s.delaySlot (fqFull2 s) }

/-- `n_restart_ack`. -/
def ack : Bool := s.fetch.acks (fetchIn s i)

/-- `n_restart_req` before it is acknowledged. -/
def pending : Bool := s.core.regs.restartValid || s.fetch.restartReq

/-- What the cycle pushes into the fetch queue. -/
def pushes : List FetchInsn :=
  match s.fetch.pushes (fetchIn s i) with
  | .none => []
  | .fault => [i.line.missedInsn s.fetch.cachePc]
  | .group => i.line.pushes s.fetch.cachePc s.delaySlot (fqFull2 s) s.fetch.pc

/-- The bits that the speculative history takes. -/
def specBits : List Bool :=
  match s.fetch.pushes (fetchIn s i) with
  | .group => i.line.taken s.fetch.cachePc s.delaySlot (fqFull2 s)
  | _ => []

/-- `n_delay_slot`. -/
def delaySlotNext : Bool :=
  if ack s i then decide (s.fetch.state = .idle) && s.delaySlot
  else
    match s.fetch.pushes (fetchIn s i) with
    | .group => i.line.slotNext s.fetch.cachePc s.delaySlot (fqFull2 s)
    | _ => s.delaySlot

/-- The int pipe reports a fault for a branch that does not go the predicted way
(`t_mispred_br`). -/
def resolve (k : Nat) (r : IntResult) : IntResult :=
  match s.core.rob[k]?, s.robTags[k]? with
  | some e, some a => { r with faulted := r.faulted || (e.uop.isBr && r.takeBr != a.pred) }
  | _, _ => r

/-- What the core is given. -/
def coreIn : Core.Input :=
  { i.core with
    insn := s.fq[0]?.map (·.insn)
    insnTwo := s.fq[1]?.map (·.insn)
    restartAck := s.restartAck
    intDone := i.core.intDone.map fun (k, r) => (k, resolve s k r) }

/-- What the core does in the cycle. -/
def turn : Comb := comb p s.core (coreIn s i)

/-- How many instructions decode takes from the fetch queue. -/
def decoding : Nat := (Core.pushed p s.core (coreIn s i) (turn p s i)).length

/-- `insn_ack`, `insn_ack_two`: the fetch queue drops them in `ACTIVE` only. -/
def dropping : Nat := if s.core.regs.state = .active then decoding p s i else 0

/-- `n_arch_gbl_hist`. -/
def archNext : BitVec histLen := if s.branchValid then shiftIn s.arch s.tookBranch else s.arch

/-- `t_next_head_br`. -/
def nextHeadBr (c : Comb) : Bool := c.retireTwo && s.core.rob[1]?.any (·.uop.isBr)

/-- The entry whose branch is reported. -/
def reported (c : Comb) : Option Entry :=
  if c.retire then (if nextHeadBr s c then s.core.rob[1]? else s.core.rob[0]?) else none

/-- The entries that leave the reorder buffer, and where they come from. -/
def leaves (c : Comb) : List (Entry × FetchInsn) :=
  (s.core.rob.zip s.robTags).take (Core.leaving c)

/-- The group that is pushed. -/
def group : Group := ⟨s.ledger.fetched.length, s.spec, s.ledger.before, s.lastSpec⟩

/-- The ledger in the next cycle, of which the core's state is `n`. -/
def ledgerNext (n : Core.State) : Ledger :=
  if ack s i then
    { base := archNext s
      fetched := []
      groups := []
      before := 0
      left := []
      older := n.rob.length }
  else
    { base := s.ledger.base
      fetched := s.ledger.fetched ++ pushes s i
      groups := if (pushes s i).isEmpty then s.ledger.groups else s.ledger.groups ++ [group s]
      before := s.ledger.fetched.length
      left := s.ledger.left ++ (leaves s (turn p s i)).drop s.ledger.older
      older :=
        if (turn p s i).clrRob then 0 else s.ledger.older - Core.leaving (turn p s i) }

/-- A clock cycle. -/
def histNext : HistState :=
  let c := turn p s i
  { fetch := s.fetch.tick (fetchIn s i)
    delaySlot := delaySlotNext s i
    fq :=
      if s.fetch.clears (fetchIn s i) then []
      else s.fq.drop (dropping p s i) ++ pushes s i
    restartAck := ack s i
    spec := if ack s i then archNext s else shiftAll s.spec (specBits s i)
    arch := archNext s
    lastSpec := s.spec
    branchValid := (reported s c).any (·.uop.isBr)
    tookBranch := (reported s c).any (·.takeBr)
    core := Core.next p s.core (coreIn s i)
    robTags :=
      if c.clrRob then []
      else s.robTags.drop (Core.leaving c) ++ s.dqTags.take (Core.allocating c)
    dqTags :=
      if c.clrDq then []
      else s.dqTags.drop (Core.allocating c) ++ s.fq.take (decoding p s i)
    ledger := ledgerNext p s i (Core.next p s.core (coreIn s i)) }

end Machine

/-- The reset values. -/
def histReset (tlb : Fin Iss.numTlbEntries → Mmu.TlbStored)
    (micro : Fin Mmu.numUitlbEntries → Mmu.MicroEntry) : HistState where
  fetch := Fetch.reset tlb micro
  delaySlot := false
  fq := []
  restartAck := false
  spec := 0
  arch := 0
  lastSpec := 0
  branchValid := false
  tookBranch := false
  core := Core.reset
  robTags := []
  dqTags := []
  ledger := ⟨0, [], [], 0, [], 0⟩

end Frontend

end R9999
