import R9999.Hw.AgeMatrix
import R9999.Hw.LowestBit
import R9999.Hw.Run
import R9999.L1d.Forward

/-!
# The load/store unit

The memory uops leave their queue for the entries of the LSU.  A load issues to the L1D when no
older entry is pending and waits there for its answer; when the L1D blocks it, it waits until it
is woken or until the stores it was told to wait for have drained.  A store issues its address,
captures its data, retires, and is then committed to the L1D, the oldest first.  Everything else
is strict: it issues when nothing older is left.

A slot toggles its epoch with every uop it is given.  A load remembers the epochs at its issue, so
that an answer of the L1D that names the stores of other slots can be told from a slot that holds
another uop by then.
-/

namespace R9999

/-! ## The classes of uops

They are those of the operations sent to the L1D: `LWC1` and `LDC1` are sent as `LW` and `LD`, the
moves between the register files as `MOV`. -/

namespace MemOp

/-- `t_mem_uq_merge`. -/
def merges : MemOp → Bool
  | .lwl | .lwr | .ldl | .ldr => true
  | _ => false

/-- `is_lsu_store`. -/
def lsuStore : MemOp → Bool
  | .sb | .sh | .sw | .sd | .swl | .swr | .sdl | .sdr | .sc | .scd => true
  | _ => false

/-- `t_mem_uq_serial`. -/
def serial : MemOp → Bool
  | .chwb | .chwbinv | .chinv => true
  | _ => false

/-- `t_mem_uq_old1`: the store checks the link on its address pass. -/
def old1 : MemOp → Bool
  | .sc | .scd => true
  | _ => false

/-- `t_mem_uq_move`. -/
def moves : MemOp → Bool
  | .mov => true
  | _ => false

end MemOp

namespace Issue

open Hw (lowest oldestReady)

/-- The parameters of the LSU. -/
structure LsuCfg where
  /-- `LG_MEM_SCHED_ENTRIES`, less two -/
  lg : ℕ
  /-- `MEM_SCHED_ENTRIES` -/
  memSchedEntries : ℕ

/-- An entry of the LSU. -/
abbrev Slot (c : LsuCfg) := Fin (2 ^ (c.lg + 2))

/-- `blk_code_t`. -/
inductive BlkCode where
  | none | miss | stConflict | sbConflict | sbData | uncacheable
  deriving DecidableEq, Repr

/-- What the LSU reads of a memory uop; `R` is the type of its ROB pointer. -/
structure MemUop (R : Type*) where
  op : MemOp
  robPtr : R

variable {c : LsuCfg} {R : Type*}

/-- `MEM_SCHED_USABLE`. -/
def memUsable (k : Slot c) : Bool := decide (k.val < c.memSchedEntries)

/-- The registers of the LSU (`r_mem_sched_*`, the store data capture, and what goes with the
issued op). -/
structure Lsu (c : LsuCfg) (R : Type*) where
  uops : Slot c → MemUop R
  valid : Slot c → Bool
  ld : Slot c → Bool
  st : Slot c → Bool
  ser : Slot c → Bool
  old1 : Slot c → Bool
  mg : Slot c → Bool
  mv : Slot c → Bool
  issued : Slot c → Bool
  sdSel : Slot c → Bool
  sdOk : Slot c → Bool
  ret : Slot c → Bool
  cmt : Slot c → Bool
  ep : Slot c → Bool
  blk : Slot c → BlkCode
  blkSt : Slot c → Slot c → Bool
  epSnap : Slot c → Slot c → Bool
  matrix : Slot c → Slot c → Bool
  sdGo : Bool
  sdIdx : Slot c
  lsuIdx : Slot c
  lsuHold : Bool
  commit : Bool
  olderSt : Slot c → Bool
  olderEp : Slot c → Bool

/-- The inputs of a cycle. -/
structure LsuIn (c : LsuCfg) (R : Type*) where
  reset : Bool
  /-- `t_flash_clear` -/
  dsDone : Bool
  /-- The head of the memory uop queue. -/
  memUq : Option (MemUop R)
  /-- `mem_q_next_full || mem_q_full` -/
  memQFull : Bool
  /-- The sources of the uop in the entry are ready. -/
  srcRdy : Slot c → Bool
  /-- The source of its store data is. -/
  sdSrcRdy : Slot c → Bool
  headOfRob : Option R
  /-- `next_head_of_rob_ptr`, when the slot there may commit. -/
  nextHeadOfRob : Option R
  retired : Option R
  retiredTwo : Option R
  /-- The entry that the L1D answers, blocks or wakes. -/
  rspIdx : Slot c
  rspValid : Bool
  rspHold : Bool
  wakeValid : Bool
  blkValid : Bool
  blkCode : BlkCode
  blkSt : Slot c → Bool
  stDone : Option (Slot c)

namespace Lsu

section Comb

variable [DecidableEq R] (s : Lsu c R) (i : LsuIn c R)

/-- `t_mem_strict`. -/
def strict (k : Slot c) : Bool := s.valid k && !s.ld k && !s.st k && !s.mv k

/-- `t_mem_st_live`. -/
def stLive (k : Slot c) : Bool := s.valid k && s.st k

/-- `t_mem_pending`. -/
def pending (k : Slot c) : Bool := s.strict k || (s.stLive k && !s.issued k)

/-- `t_mem_entry_rdy`. -/
def entryRdy (k : Slot c) : Bool :=
  s.valid k && !s.issued k && decide (s.blk k = .none) && (!s.mg k || s.sdOk k) && !i.memQFull &&
    !i.dsDone && i.srcRdy k

/-- `t_mem_elig`. -/
def elig (k : Slot c) : Bool :=
  s.entryRdy i k &&
    if s.mv k then true
    else if s.strict k || s.old1 k then decide (∀ j, s.matrix k j = false)
    else decide (∀ j, (s.matrix k j && s.pending j) = false)

/-- `t_mem_cmt_rdy`. -/
def cmtRdy (k : Slot c) : Bool :=
  s.stLive k && s.ret k && s.sdOk k && !s.cmt k &&
    decide (∀ j, (s.matrix k j && s.stLive j && !s.cmt j) = false) && !i.memQFull

/-- `t_mem_sd_rdy`. -/
def sdRdy (k : Slot c) : Bool :=
  (s.stLive k || (s.valid k && s.mg k)) && !s.sdSel k && !i.dsDone && i.sdSrcRdy k

/-- `t_mem_st_retire`. -/
def stRetire (k : Slot c) : Bool :=
  s.stLive k && s.issued k && !s.ret k &&
    (decide (i.retired = some (s.uops k).robPtr) || decide (i.retiredTwo = some (s.uops k).robPtr))

/-- `w_mem_sched_oldest_ready`. -/
def oldestRdy : Slot c → Bool := oldestReady (s.elig i) s.matrix

/-- `t_mem_issue_addr`. -/
def issueAddr : Bool := decide (∃ k, s.oldestRdy i k = true)

/-- `t_mem_issue_cmt`. -/
def issueCmt : Bool := decide (∃ k, s.cmtRdy i k = true) && !s.issueAddr i

/-- `t_mem_sched_pick_ptr`. -/
def pickPtr : Slot c := lowest c.lg (s.oldestRdy i)

/-- `t_mem_cmt_ptr`. -/
def cmtPtr : Slot c := lowest c.lg (s.cmtRdy i)

/-- `t_mem_sd_ptr`. -/
def sdPtr : Slot c := lowest c.lg (s.sdRdy i)

/-- `t_mem_sched_select_ptr`. -/
def selectPtr : Slot c := if s.issueCmt i then s.cmtPtr i else s.pickPtr i

/-- `t_sd_go`. -/
def takesData : Bool := decide (∃ k, s.sdRdy i k = true)

/-- The free entries. -/
def free (k : Slot c) : Bool := !s.valid k && memUsable k

/-- `t_mem_sched_alloc_ptr`. -/
def allocPtr : Slot c := lowest c.lg s.free

/-- `t_pop_mem_uq`. -/
def popMemUq : Bool :=
  i.memUq.isSome && !decide (∀ k : Slot c, (s.valid k || !memUsable k) = true) && !i.dsDone

/-- `t_mem_alloc_entry`. -/
def allocEntry (k : Slot c) : Bool := s.popMemUq i && k == s.allocPtr

/-- `t_mem_select_entry`. -/
def selectEntry (k : Slot c) : Bool := (s.issueAddr i || s.issueCmt i) && k == s.selectPtr i

/-- `t_mem_free_entry`. -/
def freeEntry (k : Slot c) : Bool :=
  s.valid k &&
    ((s.selectEntry i k && (s.strict k || s.mv k) && !s.ser k && s.issueAddr i) ||
      (i.rspValid && i.rspHold && (s.ld i.rspIdx || s.ser i.rspIdx) && k == i.rspIdx) ||
      decide (i.stDone = some k))

/-- `t_mem_sched_mask_valid`. -/
def maskValid (k : Slot c) : Bool := s.valid k && !s.freeEntry i k

/-- `t_blk_release`. -/
def release (k : Slot c) : Bool :=
  (decide (s.blk k = .uncacheable) &&
      (decide (i.headOfRob = some (s.uops k).robPtr) ||
        decide (i.nextHeadOfRob = some (s.uops k).robPtr))) ||
    (decide (s.blk k = .sbConflict) && decide (∀ j, (s.blkSt k j && !s.freeEntry i j) = false)) ||
    (decide (s.blk k = .sbData) &&
      decide (∀ j, (s.blkSt k j && !s.freeEntry i j && !s.sdOk j) = false))

/-- A class bit of the uop in an entry: that of the new uop, and none when the entry is freed. -/
def classNext (p : MemOp → Bool) (old : Slot c → Bool) (k : Slot c) : Bool :=
  if s.freeEntry i k then false
  else if s.allocEntry i k then i.memUq.any fun u => p u.op
  else old k

/-- The next registers of a cycle without a flush. -/
def advance : Lsu c R where
  uops k := if s.allocEntry i k then i.memUq.getD (s.uops k) else s.uops k
  valid := s.classNext i (fun _ => true) s.valid
  ld := s.classNext i L1d.genericLoad s.ld
  st := s.classNext i MemOp.lsuStore s.st
  ser := s.classNext i MemOp.serial s.ser
  old1 := s.classNext i MemOp.old1 s.old1
  mg := s.classNext i MemOp.merges s.mg
  mv := s.classNext i MemOp.moves s.mv
  issued k :=
    if s.freeEntry i k then false
    else if i.blkValid && k == i.rspIdx then false
    else if s.issueAddr i && k == s.selectPtr i then true
    else s.issued k
  sdSel k :=
    if s.freeEntry i k then false
    else if s.takesData i && k == s.sdPtr i then true
    else s.sdSel k
  sdOk k :=
    if s.freeEntry i k then false else if s.sdGo && k == s.sdIdx then true else s.sdOk k
  ret k := !s.freeEntry i k && (s.ret k || s.stRetire i k)
  cmt k :=
    if s.freeEntry i k then false
    else if s.issueCmt i && k == s.selectPtr i then true
    else s.cmt k
  ep k := if s.allocEntry i k then !s.ep k else s.ep k
  blk k :=
    if s.freeEntry i k then .none
    else if i.wakeValid && k == i.rspIdx then .none
    else if i.blkValid && k == i.rspIdx then i.blkCode
    else if s.release i k then .none
    else s.blk k
  blkSt k j :=
    if s.freeEntry i k then false
    else if i.blkValid && k == i.rspIdx then
      i.blkSt j && s.stLive j && !s.freeEntry i j && !(s.ep j ^^ s.epSnap k j)
    else s.blkSt k j && !s.freeEntry i j
  epSnap k := if s.issueAddr i && k == s.selectPtr i then s.ep else s.epSnap k
  matrix k j :=
    if s.allocEntry i k then s.maskValid i j else s.matrix k j && !s.freeEntry i j
  sdGo := s.takesData i
  sdIdx := s.sdPtr i
  lsuIdx := s.selectPtr i
  lsuHold := s.ld (s.selectPtr i) || s.st (s.selectPtr i) || s.ser (s.selectPtr i)
  commit := s.issueCmt i
  olderSt j := s.matrix (s.selectPtr i) j && s.stLive j
  olderEp := s.ep

end Comb

section Flush

variable (f : Lsu c R)

/-- `t_mem_survive`: retired stores stay through a flush. -/
def survive (k : Slot c) : Bool := f.valid k && f.st k && f.ret k

/-- A flush: everything speculative goes. -/
def flashClear : Lsu c R :=
  { f with
    valid := f.survive
    ld := fun _ => false
    ser := fun _ => false
    old1 := fun k => f.old1 k && f.survive k
    mg := fun _ => false
    st := f.survive
    issued := fun k => f.issued k && f.survive k
    sdSel := fun k => f.sdSel k && f.survive k
    sdOk := fun k => f.sdOk k && f.survive k
    ret := fun k => f.ret k && f.survive k
    cmt := fun k => f.cmt k && f.survive k
    blk := fun _ => .none
    blkSt := fun _ _ => false
    matrix := fun k j => f.matrix k j && f.survive j }

/-- The entries after reset. -/
def cleared : Lsu c R :=
  { f with
    valid := fun _ => false, ld := fun _ => false, st := fun _ => false, ser := fun _ => false
    old1 := fun _ => false, mg := fun _ => false, mv := fun _ => false
    issued := fun _ => false, sdSel := fun _ => false, sdOk := fun _ => false
    ret := fun _ => false, cmt := fun _ => false, ep := fun _ => false
    blk := fun _ => .none, blkSt := fun _ _ => false, epSnap := fun _ _ => false
    matrix := fun _ _ => false, sdGo := false }

end Flush

variable [DecidableEq R] (s : Lsu c R) (i : LsuIn c R)

/-- One cycle. -/
def next : Lsu c R :=
  let f := s.advance i
  let n := if i.dsDone then f.flashClear else f
  let n := { n with valid := fun k => n.valid k && memUsable k }
  if i.reset then n.cleared else n

/-- `lsu_sb`: what the L1D sees of the entries. -/
def sbView : L1d.LsuView (2 ^ (c.lg + 2)) := ⟨s.stLive, s.ep, s.sdOk, s.matrix⟩

end Lsu

/-! ## The history -/

/-- What is kept beside the LSU: the uops by their place in the order of the allocations. -/
structure LsuTrace (c : LsuCfg) where
  /-- How many uops were allocated. -/
  count : ℕ
  /-- The place of the uop in an entry. -/
  seat : Slot c → ℕ
  /-- The stores that retired, those whose commit was issued, and those the L1D has written. -/
  retired : List ℕ
  commits : List ℕ
  done : List ℕ
  /-- The uops whose store data was written into the store buffer. -/
  captured : List ℕ
  /-- The older stores that an entry was sent with at its last issue, and their places. -/
  older : Slot c → Slot c → Bool
  stamp : Slot c → Slot c → ℕ
  /-- How often a slot was allocated since the last issue of an entry. -/
  turns : Slot c → Slot c → ℕ
  /-- The stores that the L1D told an entry to wait for. -/
  waits : Slot c → List ℕ

/-- The history after reset. -/
def LsuTrace.start : LsuTrace c where
  count := 0
  seat _ := 0
  retired := []
  commits := []
  done := []
  captured := []
  older _ _ := false
  stamp _ _ := 0
  turns _ _ := 0
  waits _ := []

section Trace

variable [DecidableEq R] (s : Lsu c R) (i : LsuIn c R)

/-- The entry issues, and not for a commit. -/
def Lsu.issues (k : Slot c) : Bool := s.issueAddr i && k == s.selectPtr i

/-- The history after a cycle. -/
def LsuTrace.next (t : LsuTrace c) : LsuTrace c where
  count := t.count + (s.popMemUq i).toNat
  seat k := if s.allocEntry i k then t.count else t.seat k
  retired := t.retired ++ ((List.finRange _).filter (s.stRetire i)).map t.seat
  commits := t.commits ++ if s.issueCmt i then [t.seat (s.selectPtr i)] else []
  done := t.done ++ (i.stDone.toList.filter s.stLive).map t.seat
  captured := t.captured ++ if s.sdGo then [t.seat s.sdIdx] else []
  older k := if s.issues i k then fun j => s.matrix k j && s.stLive j else t.older k
  stamp k := if s.issues i k then t.seat else t.stamp k
  turns k j := (if s.issues i k then 0 else t.turns k j) + (s.allocEntry i j).toNat
  waits k :=
    if i.dsDone || s.freeEntry i k then []
    else if i.blkValid && k == i.rspIdx then
      ((List.finRange _).filter fun j => i.blkSt j && t.older k j).map (t.stamp k)
    else t.waits k

/-- One cycle of the LSU and its history, which a reset starts anew. -/
def lsuStep (x : Lsu c R × LsuTrace c) (i : LsuIn c R) : Lsu c R × LsuTrace c :=
  (x.1.next i, if i.reset then .start else x.2.next x.1 i)

end Trace

end Issue

end R9999
