import R9999.Hw.LowestBit
import R9999.Mmu.Itlb

/-!
# The data TLB

`tlb.sv`: the slots, the compare of an address with all of them, and the outputs, which are
registers.  `out_of_range`, which is always zero, is left out; so is what a simulation loads from
a checkpoint at reset.  `Jtlb` is the TLB of the I-side (`Itlb`) with the two outputs that the
instruction cache leaves unconnected.
-/

namespace R9999

namespace Mmu

open Iss (numTlbEntries)

/-- `tlb_data_t`: a write of a slot. -/
structure TlbData where
  entry : BitVec 6
  pagemask : BitVec 12
  asid : BitVec 8
  r : BitVec 2
  vpn : BitVec 27
  page0 : EntryLo 24
  page1 : EntryLo 24

/-- What a slot stores of a write: of a page frame number, the lower 18 bits. -/
def TlbData.stored (d : TlbData) : TlbStored where
  pagemask := d.pagemask
  asid := d.asid
  r := d.r
  vpn := d.vpn
  page0 := { d.page0 with pfn := d.page0.pfn.setWidth 18 }
  page1 := { d.page1 with pfn := d.page1.pfn.setWidth 18 }

/-- What is looked up in a cycle. -/
structure LookupIn where
  asid : BitVec 8
  active : Bool
  req : Bool
  va : BitVec 64
  deriving DecidableEq

/-- What a lookup answers, when `hit` is set. -/
structure Answer where
  hitIndex : BitVec 6
  dirty : Bool
  valid : Bool
  cacheAttr : BitVec 3
  pa : BitVec 36
  deriving DecidableEq

/-- The registers of `tlb.sv`. -/
structure Dtlb where
  tlb : Fin numTlbEntries → TlbStored
  written : Fin numTlbEntries → Bool
  hit : Bool
  hitIndex : BitVec 6
  dirty : Bool
  valid : Bool
  cacheAttr : BitVec 3
  pa : BitVec 36

namespace Dtlb

variable (d : Dtlb) (w : Option TlbData) (l : LookupIn)

/-- `w_hits`; the wires beyond the slots are not set. -/
def hits (j : Fin numTlbEntries) : Bool :=
  (d.tlb j).addrSpaceMatch l.asid && (d.tlb j).hit8k l.va && d.written j

/-- `w_hit_idx`. -/
def hitIdx : BitVec 6 := BitVec.ofNat 6 (Hw.findLowestSetBit 4 (Hw.wires (d.hits l)))

/-- The slot of an index. -/
def slot (idx : BitVec 6) : TlbStored :=
  if h : idx.toNat < numTlbEntries then d.tlb ⟨idx.toNat, h⟩ else {}

/-- The slots after a write. -/
def writeTlb : Fin numTlbEntries → TlbStored :=
  match w with
  | some e =>
    if h : e.entry.toNat < numTlbEntries then Function.update d.tlb ⟨e.entry.toNat, h⟩ e.stored
    else d.tlb
  | none => d.tlb

/-- Which of them have been written. -/
def writeWritten : Fin numTlbEntries → Bool :=
  match w with
  | some e =>
    if h : e.entry.toNat < numTlbEntries then Function.update d.written ⟨e.entry.toNat, h⟩ true
    else d.written
  | none => d.written

/-- A clock cycle. -/
def tick : Dtlb where
  tlb := d.writeTlb w
  written := d.writeWritten w
  hit := if l.active then l.req && (List.finRange numTlbEntries).any (d.hits l) else true
  hitIndex := d.hitIdx l
  dirty := if l.active then ((d.slot (d.hitIdx l)).page l.va).d else true
  valid := if l.active then ((d.slot (d.hitIdx l)).page l.va).v else true
  cacheAttr := if l.active then ((d.slot (d.hitIdx l)).page l.va).c else 3
  pa := if l.active then (d.slot (d.hitIdx l)).pa l.va else l.va.setWidth 36

/-- What a reset leaves: of the slots, the valid bits are cleared, and nothing else. -/
def reset : Dtlb where
  tlb j :=
    { d.tlb j with
      page0 := { (d.tlb j).page0 with v := false }
      page1 := { (d.tlb j).page1 with v := false } }
  written _ := false
  hit := false
  hitIndex := 0
  dirty := false
  valid := false
  cacheAttr := 3
  pa := d.pa

/-- The TLB some cycles after a reset. -/
def run (ws : ℕ → Option TlbData) (ls : ℕ → LookupIn) : ℕ → Dtlb
  | 0 => d.reset
  | t + 1 => (run ws ls t).tick (ws t) (ls t)

/-- What the outputs say. -/
def answer : Option Answer :=
  if d.hit then some ⟨d.hitIndex, d.dirty, d.valid, d.cacheAttr, d.pa⟩ else none

end Dtlb

/-- The registers of `itlb.sv`, with all outputs. -/
structure Jtlb extends Itlb where
  dirty : Bool
  cacheAttr : BitVec 3

namespace Jtlb

variable (j : Jtlb)

/-- A clock cycle: the outputs are those of the match of the cycle before. -/
def tick (w : Option TlbData) (l : LookupIn) (installEn : Bool) : Jtlb where
  toItlb := j.toItlb.tick
    { asid := l.asid, active := l.active, req := l.req, va := l.va
      tlbEntryIn := w.map fun e => (e.entry, e.stored)
      installEn }
  dirty := if l.active then ((j.slot j.hitIdx).page l.va).d else true
  cacheAttr := if l.active then ((j.slot j.hitIdx).page l.va).c else 3

/-- What a reset leaves. -/
def reset : Jtlb where
  toItlb := (Fetch.reset j.tlb j.micro).itlb
  dirty := false
  cacheAttr := 3

/-- The TLB some cycles after a reset. -/
def run (ws : ℕ → Option TlbData) (ls : ℕ → LookupIn) (installEn : ℕ → Bool) : ℕ → Jtlb
  | 0 => j.reset
  | t + 1 => (run ws ls installEn t).tick (ws t) (ls t) (installEn t)

/-- What the outputs say. -/
def answer : Option Answer :=
  if j.hit then some ⟨j.hitIndex, j.dirty, j.valid, j.cacheAttr, j.pa⟩ else none

end Jtlb

end Mmu

end R9999
