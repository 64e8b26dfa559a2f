import R9999.Hw.AgeMatrix
import R9999.Hw.LowestBit
import R9999.Hw.Ring
import R9999.Hw.Run

/-!
# The integer scheduler

The core puts its integer uops into the uop queue, up to two a cycle.  From there they are popped
into free entries of the scheduler, and from the entries they are issued, the oldest ready one
first by the age matrix; with the bypass the head of the queue may be issued without an entry.

A uop is known by its place in the order of the pushes since the last flush.  `Trace` keeps the
places beside the machine, and `Tracks` ties the two together: the pointers of the queue are the
places of its ends, the matrix is the order of the places in the entries, and every place that
left the queue is in one entry or was issued.
-/

namespace R9999

namespace Issue

open Hw (ringIdx ringPtr lowest oldestReady AgeOrder)

/-- The parameters of the machine. -/
structure SchedCfg where
  /-- `LG_UQ_ENTRIES` -/
  lgUq : ℕ
  /-- `LG_INT_SCHED_ENTRIES`, less two -/
  lgSched : ℕ
  /-- `INT_SCHED_ENTRIES` -/
  intSchedEntries : ℕ
  /-- `ENABLE_SCHED_BYPASS` -/
  schedBypass : Bool
  /-- `ENABLE_UQ_DUAL_POP` -/
  uqDualPop : Bool

/-- An entry of the scheduler. -/
abbrev Entry (c : SchedCfg) := Fin (2 ^ (c.lgSched + 2))

variable {c : SchedCfg} {U : Type*}

/-- `INT_SCHED_USABLE` -/
def usable (k : Entry c) : Bool := decide (k.val < c.intSchedEntries)

/-- The uop queue, the entries with their age matrix, and the uop that starts. -/
structure Sched (c : SchedCfg) (U : Type*) where
  uqHeadPtr : BitVec (c.lgUq + 1)
  uqTailPtr : BitVec (c.lgUq + 1)
  uqNextHeadPtr : BitVec (c.lgUq + 1)
  uqNextTailPtr : BitVec (c.lgUq + 1)
  rUq : ℕ → U
  aluSchedValid : Entry c → Bool
  aluSchedUops : Entry c → U
  aluSchedMatrix : Entry c → Entry c → Bool
  startInt : Bool
  intUop : U

/-- The inputs of a cycle: what the core allocates, and what is ready. -/
structure SchedIn (c : SchedCfg) (U : Type*) where
  reset : Bool
  dsDone : Bool
  /-- The core's conditions for the first uop, but those on the queues. -/
  alloc : Bool
  allocTwo : Bool
  foldUop : Bool
  foldUop2 : Bool
  allocUop : U
  allocUop2 : U
  /-- The memory and FP queues are full. -/
  otherFull : Bool
  otherNextFull : Bool
  /-- The operands and the unit of the uop in the entry are ready. -/
  rdy : Entry c → Bool
  /-- The operands of the head of the queue are ready, and it may bypass. -/
  bypassOk : Bool

namespace Sched

variable (isInt : U → Bool) (s : Sched c U) (i : SchedIn c U)

def uqEmpty : Bool := s.uqHeadPtr == s.uqTailPtr

def uqFull : Bool :=
  s.uqHeadPtr != s.uqTailPtr && ringIdx s.uqHeadPtr == ringIdx s.uqTailPtr

def uqNextFull : Bool :=
  s.uqHeadPtr != s.uqNextTailPtr && ringIdx s.uqHeadPtr == ringIdx s.uqNextTailPtr

/-! ### What the core pushes -/

/-- `t_alloc`, which asks for room in every queue -/
def coreAlloc : Bool := i.alloc && !(s.uqFull || i.otherFull)

/-- `t_alloc_two` -/
def coreAllocTwo : Bool :=
  s.coreAlloc i && i.allocTwo && !(s.uqNextFull || i.otherNextFull)

def push1 : Bool := s.coreAlloc i && !i.foldUop

def push2 : Bool := s.coreAllocTwo i && !i.foldUop2

def uqPush : Bool := s.push1 i || (!s.push1 i && s.push2 i)

def uqPushTwo : Bool := s.push2 i && s.push1 i

def uqUop : U := if s.push1 i then i.allocUop else i.allocUop2

def uqUopTwo : U := i.allocUop2

def pushTwoInt : Bool :=
  s.uqPush i && s.uqPushTwo i && isInt (s.uqUop i) && isInt (uqUopTwo i)

def pushOneInt : Bool :=
  ((s.uqPush i && isInt (s.uqUop i)) || (s.uqPushTwo i && isInt (uqUopTwo i))) &&
    !s.pushTwoInt isInt i

/-! ### What is selected and popped -/

def uq : U := s.rUq (ringIdx s.uqHeadPtr)

def uq2 : U := s.rUq (ringIdx s.uqNextHeadPtr)

def entryRdy (k : Entry c) : Bool := s.aluSchedValid k && i.rdy k

/-- Some entry is ready. -/
def anyRdy : Bool := decide (∃ k, s.entryRdy i k = true)

def oldestRdy : Entry c → Bool := oldestReady (s.entryRdy i) s.aluSchedMatrix

def selectPtr : Entry c := lowest c.lgSched (s.oldestRdy i)

def free (k : Entry c) : Bool := !s.aluSchedValid k && usable k

def allocPtr : Entry c := lowest c.lgSched s.free

/-- The free entries but that of the first allocation. -/
def free2 (k : Entry c) : Bool := s.free k && !(k == s.allocPtr)

def alloc2Ptr : Entry c := lowest c.lgSched s.free2

def schedFull : Bool := decide (∀ k : Entry c, (s.aluSchedValid k || !usable k) = true)

def uqBypass : Bool :=
  c.schedBypass && (!(i.dsDone || s.uqEmpty) && !s.anyRdy i && i.bypassOk)

def popUq : Bool := !(i.dsDone || s.uqEmpty || s.schedFull) || s.uqBypass i

def popUq2 : Bool :=
  c.uqDualPop &&
    (s.popUq i && s.uqNextHeadPtr != s.uqTailPtr && decide (∃ k, s.free2 k = true))

def allocEntry (k : Entry c) : Bool := (s.popUq i && !s.uqBypass i) && k == s.allocPtr

def alloc2Entry (k : Entry c) : Bool := s.popUq2 i && k == s.alloc2Ptr

def selectEntry (k : Entry c) : Bool := s.anyRdy i && k == s.selectPtr i

def pickedUop : U := if s.uqBypass i then s.uq else s.aluSchedUops (s.selectPtr i)

/-- The entries a new row sees: those that are there and stay. -/
def schedMaskValid (k : Entry c) : Bool := s.aluSchedValid k && !s.selectEntry i k

/-! ### The clock edge -/

def nextTail (p : BitVec (c.lgUq + 1)) : BitVec (c.lgUq + 1) :=
  if s.pushTwoInt isInt i then p + 2
  else if s.uqPushTwo i && isInt (uqUopTwo i) || s.uqPush i && isInt (s.uqUop i) then p + 1
  else p

def nextHead (p : BitVec (c.lgUq + 1)) : BitVec (c.lgUq + 1) :=
  if s.popUq2 i then p + 2 else if s.popUq i then p + 1 else p

def nextUq : ℕ → U :=
  if s.pushTwoInt isInt i then
    Function.update (Function.update s.rUq (ringIdx s.uqTailPtr) (s.uqUop i))
      (ringIdx s.uqNextTailPtr) (uqUopTwo i)
  else if s.pushOneInt isInt i then
    Function.update s.rUq (ringIdx s.uqTailPtr)
      (if isInt (s.uqUop i) then s.uqUop i else uqUopTwo i)
  else s.rUq

def nextValid (k : Entry c) : Bool :=
  if s.selectEntry i k then false
  else if s.alloc2Entry i k then usable k
  else if s.allocEntry i k then usable k
  else s.aluSchedValid k

def nextUops (k : Entry c) : U :=
  if s.alloc2Entry i k then s.uq2 else if s.allocEntry i k then s.uq else s.aluSchedUops k

def nextMatrix (k : Entry c) : Entry c → Bool :=
  if s.allocEntry i k then s.schedMaskValid i
  else if s.alloc2Entry i k then fun j => s.schedMaskValid i j || s.allocEntry i j
  else if s.anyRdy i then fun j => s.aluSchedMatrix k j && !s.selectEntry i j
  else s.aluSchedMatrix k

/-- One cycle. -/
def next : Sched c U :=
  let flush := i.reset || i.dsDone
  { uqHeadPtr := if flush then 0 else s.nextHead i s.uqHeadPtr
    uqTailPtr := if flush then 0 else s.nextTail isInt i s.uqTailPtr
    uqNextHeadPtr := if flush then 1 else s.nextHead i s.uqNextHeadPtr
    uqNextTailPtr := if flush then 1 else s.nextTail isInt i s.uqNextTailPtr
    rUq := s.nextUq isInt i
    aluSchedValid := fun k => if flush then false else s.nextValid i k
    aluSchedUops := fun k => if flush then s.aluSchedUops k else s.nextUops i k
    aluSchedMatrix := fun k => if flush then fun _ => false else s.nextMatrix i k
    startInt := if i.reset then false else (s.anyRdy i || s.uqBypass i) && !i.dsDone
    intUop := s.pickedUop i }

end Sched

end Issue

end R9999
