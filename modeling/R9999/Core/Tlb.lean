import R9999.Core.Cp0Order
import R9999.Mmu.TlbUnit

/-!
# The TLB instructions in the pipeline

The CP0 registers of the TLB, its three copies and the registers between them (`exec.sv`), beside
the core with the order of its CP0 writes.  `TLBWI` and `TLBWR` latch their index when they are
executed, and write the copies one cycle later with what the registers then hold; `TLBR` loads the
registers one cycle later from a read that was made before.  A probe takes its address from
EntryHi on its way into the memory queue, and is looked up in the data TLB.

The histories say what has been done to the TLB and its registers, and what the program has done:
the instructions that have retired, and the exceptions.
-/

namespace R9999

namespace Core

open Iss (numTlbEntries)
open Mmu (TlbRegs TlbStored TlbEvent TlbUnit TlbData EntryLo Dtlb Jtlb LookupIn)

/-- A write of the CP0 writers. -/
def Cp0Write.event : Cp0Write → TlbEvent
  | .move w => .move w.reg w.data w.wide
  | .probe hit index => .probe hit index
  | .readTlb => .read

/-- What the operations that use the TLB do when they are executed. -/
def Op.tlbEvent : Op → Option TlbEvent
  | .tlbr => some .read
  | .tlbwi => some .writeIndexed
  | .tlbwr => some .writeRandom
  | _ => none

/-- What an instruction does to the TLB and its registers. -/
def Entry.tlbEvent (e : Entry) : Option TlbEvent :=
  if e.uop.op.usesTlb then e.uop.op.tlbEvent
  else if e.uop.op.isCp0Wr then some e.cp0Write.event
  else none

/-- The core, the TLB, and the histories. -/
structure TlbState where
  cp0 : Cp0State
  regs : TlbRegs
  wired : BitVec 6
  random : BitVec 6
  tlbIndex : BitVec 6
  entryOutValid : Bool
  tlbr : Bool
  /-- `r_tlb_entry`. -/
  tlbEntry : TlbStored
  /-- `r_shadow_tlb`. -/
  shadow : Fin numTlbEntries → TlbStored
  dtlb : Dtlb
  itlb : Jtlb
  /-- The address of the probe in each place of the reorder buffer, once it is in the memory
  queue, and what the data TLB has said about it. -/
  probeVa : Nat → Option (BitVec 64)
  probed : Nat → Option (Bool × BitVec 6)
  /-- What has been done, with what Random was then. -/
  done : List (TlbEvent × BitVec 6)
  /-- What has retired, and the exceptions. -/
  program : List TlbEvent

/-- The inputs of a cycle. -/
structure TlbInput where
  cp0 : Cp0Input
  /-- The operation that the int pipe still holds if it executes none. -/
  held : Op
  /-- The probe that is looked up, by its distance from the head, or what else is. -/
  look : Option Nat
  dLookup : LookupIn
  iLookup : LookupIn
  installEn : Bool

section Core

variable (t : State) (j : Input) (c : Comb)

/-- `core_wr_tlbp`, `core_tlbp_hit` and `core_tlbp_index`. -/
def wrTlbp : Option (Bool × BitVec 6) :=
  if c.retireTwo && t.rob[1]?.any (fun e => decide (e.uop.op = .tlbp)) then
    t.rob[1]?.map fun e => (e.tlbHit, e.tlbIndex)
  else if c.retire && t.rob[0]?.any (fun e => decide (e.uop.op = .tlbp)) then
    t.rob[0]?.map fun e => (e.tlbHit, e.tlbIndex)
  else none

/-- What the operation that is executed does to the TLB. -/
def acts : List TlbEvent :=
  match starting t j with
  | some (_, e) => e.uop.op.tlbEvent.toList
  | none => []

/-- What an exception does to the registers. -/
def saves : List TlbEvent :=
  if t.regs.saveToTlbRegs then [.save t.regs.badvaddr]
  else if c.wrBadvaddr then [.badAddr t.regs.badvaddr]
  else []

/-- What the instructions that retire do. -/
def retires : List TlbEvent := (retiring t c).filterMap Entry.tlbEvent

end Core

section Machine

variable (p : Params) (s : TlbState) (i : TlbInput)

/-- The memory pipe answers a probe with what the data TLB has said.  Once the slot is done with
it answers at once. -/
def answer (x : Nat × MemResult) : Option (Nat × MemResult) :=
  if s.cp0.core.rob[x.1]?.any (fun e => decide (e.uop.op = .tlbp)) && !s.cp0.core.regs.dsDone then
    (s.probed (robSlot p s.cp0 x.1)).map fun a =>
      (x.1, { x.2 with tlbHit := a.1, tlbIndex := a.2 })
  else some x

/-- The inputs of the CP0 order. -/
def cp0In : Cp0Input :=
  { i.cp0 with core := { i.cp0.core with memDone := i.cp0.core.memDone.bind (answer p s) } }

/-- The inputs of the core, and what it makes of them. -/
def feed : Input := fed p s.cp0 (cp0In p s i)

def turn : Comb := comb p s.cp0.core (feed p s i)

/-- What the int pipe executes. -/
def acting : Option (Nat × Entry) := starting s.cp0.core (feed p s i)

/-- `int_uop.op`. -/
def intOp : Op :=
  match acting p s i with
  | some (_, e) => e.uop.op
  | none => i.held

/-- The CP0 write of this cycle (`w_cp0_wr`), and its data if it writes the register. -/
def cp0Wr : Option Staged :=
  if s.cp0.retireValid && s.cp0.retireStaged then some (s.cp0.stage s.cp0.retirePtr) else none

def wrData (reg : BitVec 5) : Option (BitVec 64) :=
  ((cp0Wr s).filter fun w => decide (w.reg = reg)).map (·.data)

/-- The registers of the TLB. -/
def regsNext : TlbRegs where
  index :=
    match wrTlbp s.cp0.core (turn p s i) with
    | some x => x.2
    | none => ((wrData s 0).map (·.setWidth 6)).getD s.regs.index
  probeFailed :=
    match wrTlbp s.cp0.core (turn p s i) with
    | some x => !x.1
    | none => ((wrData s 0).map (·.getLsbD 31)).getD s.regs.probeFailed
  entryhiAsid :=
    if s.tlbr then s.tlbEntry.asid
    else if s.cp0.core.regs.saveToTlbRegs then s.regs.entryhiAsid
    else ((wrData s 10).map (·.setWidth 8)).getD s.regs.entryhiAsid
  entryhiR :=
    if s.tlbr then s.tlbEntry.r
    else if s.cp0.core.regs.saveToTlbRegs then s.cp0.core.regs.badvaddr.extractLsb' 62 2
    else ((wrData s 10).map (·.extractLsb' 62 2)).getD s.regs.entryhiR
  entryhiVpn2 :=
    if s.tlbr then s.tlbEntry.vpn
    else if s.cp0.core.regs.saveToTlbRegs then s.cp0.core.regs.badvaddr.extractLsb' 13 27
    else ((wrData s 10).map (·.extractLsb' 13 27)).getD s.regs.entryhiVpn2
  entrylo0 :=
    if s.tlbr then { s.tlbEntry.page0 with pfn := s.tlbEntry.page0.pfn.setWidth 24 }
    else ((wrData s 2).map EntryLo.ofValue).getD s.regs.entrylo0
  entrylo1 :=
    if s.tlbr then { s.tlbEntry.page1 with pfn := s.tlbEntry.page1.pfn.setWidth 24 }
    else ((wrData s 3).map EntryLo.ofValue).getD s.regs.entrylo1
  pagemask :=
    if s.tlbr then s.tlbEntry.pagemask
    else ((wrData s 5).map (·.extractLsb' 13 12)).getD s.regs.pagemask
  ptebase := ((wrData s 4).map (·.extractLsb' 23 9)).getD s.regs.ptebase
  xptebase :=
    if (cp0Wr s).any (·.wide) then ((wrData s 20).map (·.extractLsb' 33 31)).getD s.regs.xptebase
    else s.regs.xptebase
  badvpn2 :=
    if s.cp0.core.regs.saveToTlbRegs then s.cp0.core.regs.badvaddr.extractLsb' 13 27 else s.regs.badvpn2
  badvaddr := if (turn p s i).wrBadvaddr then s.cp0.core.regs.badvaddr else s.regs.badvaddr

/-- `n_wired` and `n_random`. -/
def wiredNext : BitVec 6 := ((wrData s 6).map (·.setWidth 6)).getD s.wired

def randomNext : BitVec 6 :=
  if (wrData s 6).isSome then 47
  else if (turn p s i).retire then (if s.random = s.wired then 47 else s.random - 1)
  else s.random

/-- `tlb_entry_out`. -/
def tlbEntryOut : Option TlbData :=
  if s.entryOutValid then
    some
      { entry := s.tlbIndex, pagemask := s.regs.pagemask, asid := s.regs.entryhiAsid
        r := s.regs.entryhiR, vpn := s.regs.entryhiVpn2, page0 := s.regs.entrylo0
        page1 := s.regs.entrylo1 }
  else none

/-- The copy for `TLBR` after a write, and what is read of it. -/
def shadowNext : Fin numTlbEntries → TlbStored :=
  match tlbEntryOut s with
  | some w =>
    if h : w.entry.toNat < numTlbEntries then Function.update s.shadow ⟨w.entry.toNat, h⟩ w.stored
    else s.shadow
  | none => s.shadow

def shadowRead : TlbStored :=
  if h : s.regs.index.toNat < numTlbEntries then s.shadow ⟨s.regs.index.toNat, h⟩ else {}

/-- The address of the probe that the data TLB is given. -/
def lookVa : Option (BitVec 64) := i.look.bind fun k => s.probeVa (robSlot p s.cp0 k)

/-- What the data TLB is given. -/
def dtlbIn : LookupIn :=
  match lookVa p s i with
  | some va => ⟨s.regs.entryhiAsid, true, true, va⟩
  | none => i.dLookup

def dtlbNext : Dtlb := s.dtlb.tick (tlbEntryOut s) (dtlbIn p s i)

/-- A probe on its way into the memory queue reads the registers as they are in the next
cycle. -/
def probeVaNext (j : Nat) : Option (BitVec 64) :=
  if fresh p s.cp0 (turn p s i) j then none
  else if (List.range s.cp0.core.rob.length).any fun k =>
      decide (j = robSlot p s.cp0 k) && probing s.cp0 (cp0In p s i) k then
    some (regsNext p s i).probeVa
  else s.probeVa j

def probedNext (j : Nat) : Option (Bool × BitVec 6) :=
  if fresh p s.cp0 (turn p s i) j then none
  else if (lookVa p s i).isSome && i.look.any fun k => decide (j = robSlot p s.cp0 k) then
    some ((dtlbNext p s i).hit, (dtlbNext p s i).hitIndex)
  else s.probed j

/-- What is done in this cycle. -/
def performed : List TlbEvent :=
  (commits s.cp0).map Cp0Write.event ++
    (wrTlbp s.cp0.core (turn p s i)).toList.map (fun x => .probe x.1 x.2) ++
    acts s.cp0.core (feed p s i) ++ saves s.cp0.core (turn p s i)

def tlbNext : TlbState where
  cp0 := cp0Next p s.cp0 (cp0In p s i)
  regs := regsNext p s i
  wired := wiredNext s
  random := randomNext p s i
  tlbIndex :=
    if intOp p s i = .tlbwi then s.regs.index
    else if intOp p s i = .tlbwr then s.random
    else s.tlbIndex
  entryOutValid :=
    (acting p s i).any fun x => decide (x.2.uop.op = .tlbwi) || decide (x.2.uop.op = .tlbwr)
  tlbr := (acting p s i).any fun x => decide (x.2.uop.op = .tlbr)
  tlbEntry := shadowRead s
  shadow := shadowNext s
  dtlb := dtlbNext p s i
  itlb := s.itlb.tick (tlbEntryOut s) i.iLookup i.installEn
  probeVa := probeVaNext p s i
  probed := probedNext p s i
  done := s.done ++ (performed p s i).map (·, s.random)
  program :=
    s.program ++ retires s.cp0.core (turn p s i) ++ saves s.cp0.core (turn p s i)

end Machine

/-- Reset.  The copies and the staging buffer hold anything. -/
def tlbReset (stage : Nat → Staged) (shadow : Fin numTlbEntries → TlbStored) (e : TlbStored)
    (d : Dtlb) (u : Jtlb) : TlbState where
  cp0 := cp0Reset stage
  regs := {}
  wired := 0
  random := 47
  tlbIndex := 0
  entryOutValid := false
  tlbr := false
  tlbEntry := e
  shadow := shadow
  dtlb := d.reset
  itlb := u.reset
  probeVa := fun _ => none
  probed := fun _ => none
  done := []
  program := []

end Core

end R9999
