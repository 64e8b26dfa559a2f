import R9999.Mmu.Rtl
import R9999.Hw.Run

/-!
# The translation of a fetch

The TLB of the I-side (`itlb.sv`), whose lookup takes two cycles, with the micro-TLB in front
of it, and the control of the instruction cache that drives it (`l1i.sv`).  Of the latter the
model has all states; what the cache arrays, the fetch queue and the branch predictor say is
an input.  `dirty`, `cache_attr` and `out_of_range`, which the instruction cache leaves
unconnected, are left out.
-/

namespace R9999

namespace Mmu

open Iss (numTlbEntries)

/-- `N_UITLB_ENTRIES`. -/
abbrev numUitlbEntries : Nat := 2

/-- An entry of the micro-TLB. -/
structure MicroEntry where
  valid : Bool := false
  vpn : BitVec 27 := 0
  pm : BitVec 12 := 0
  r : BitVec 2 := 0
  asid : BitVec 8 := 0
  g : Bool := false
  pfn0 : BitVec 18 := 0
  pfn1 : BitVec 18 := 0
  v0 : Bool := false
  v1 : Bool := false
  deriving DecidableEq

namespace MicroEntry

/-- The copy that an install makes. -/
def copy (e : TlbStored) : MicroEntry where
  valid := true
  vpn := e.vpn
  pm := e.pagemask
  r := e.r
  asid := e.asid
  g := e.page0.g && e.page1.g
  pfn0 := e.page0.pfn
  pfn1 := e.page1.pfn
  v0 := e.page0.v
  v1 := e.page1.v

variable (m : MicroEntry) (va : BitVec 64)

/-- `w_u_hits`. -/
def hits (asid : BitVec 8) : Bool :=
  m.valid && ((m.vpn ^^^ va.extractLsb' 13 27) &&& (BitVec.allOnes 15 ++ ~~~m.pm)) == 0 &&
    m.r == va.extractLsb' 62 2 && (m.asid == asid || m.g)

/-- `w_u_pgsz`. -/
def pgsz : Nat :=
  if m.pm = 0x000 then 0
  else if m.pm = 0x003 then 1
  else if m.pm = 0x00f then 2
  else if m.pm = 0x03f then 3
  else if m.pm = 0x0ff then 4
  else if m.pm = 0x3ff then 5
  else 6

/-- `w_u_odd`. -/
def odd : Bool := va.getLsbD (12 + 2 * m.pgsz)

/-- `ufast_pa`. -/
def pa : BitVec 36 :=
  let pfn : BitVec 24 := (if m.odd va then m.pfn1 else m.pfn0).setWidth 24
  (((pfn >>> (2 * m.pgsz)) <<< (2 * m.pgsz)).setWidth 36 <<< 12) |||
    (va.setWidth 36 &&& BitVec.ofNat 36 (2 ^ (12 + 2 * m.pgsz) - 1))

/-- `ufast_valid`. -/
def pageValid : Bool := if m.odd va then m.v1 else m.v0

end MicroEntry

/-- The registers of `itlb.sv`. -/
structure Itlb where
  tlb : Fin numTlbEntries → TlbStored
  written : Fin numTlbEntries → Bool
  /-- The match of the cycle before. -/
  rHits : Fin numTlbEntries → Bool
  hit : Bool
  hitIndex : BitVec 6
  pa : BitVec 36
  valid : Bool
  micro : Fin numUitlbEntries → MicroEntry
  lfsr : BitVec 8
  asidSeen : BitVec 8

/-- What the TLB is given in a cycle. -/
structure ItlbIn where
  asid : BitVec 8
  active : Bool
  req : Bool
  va : BitVec 64
  /-- A write, cut to what the TLB stores. -/
  tlbEntryIn : Option (BitVec 6 × TlbStored)
  installEn : Bool

namespace Itlb

variable (t : Itlb) (i : ItlbIn)

/-- `w_hits`. -/
def hits (va : BitVec 64) (asid : BitVec 8) (j : Fin numTlbEntries) : Bool :=
  (t.tlb j).addrSpaceMatch asid && (t.tlb j).hit8k va && t.written j

/-- The lookup of an address in all entries: the lowest that matches. -/
def search (va : BitVec 64) (asid : BitVec 8) : Option (Fin numTlbEntries) :=
  (List.finRange numTlbEntries).find? (t.hits va asid)

/-- `w_hit_idx`: without a match, the lower bits of 64. -/
def hitIdx : BitVec 6 :=
  match (List.finRange numTlbEntries).find? t.rHits with
  | some j => BitVec.ofNat 6 j.val
  | none => 0

/-- The entry of an index. -/
def slot (idx : BitVec 6) : TlbStored :=
  if h : idx.toNat < numTlbEntries then t.tlb ⟨idx.toNat, h⟩ else {}

/-- `w_u_any`. -/
def microHit (va : BitVec 64) (asid : BitVec 8) : Bool :=
  (List.finRange numUitlbEntries).any fun u => (t.micro u).hits va asid

/-- The entry whose fields are selected: the last that matches. -/
def selected (va : BitVec 64) (asid : BitVec 8) : MicroEntry :=
  (List.finRange numUitlbEntries).foldl
    (fun e u => if (t.micro u).hits va asid then t.micro u else e) {}

/-- `w_u_flush`. -/
def flushes : Bool := i.tlbEntryIn.isSome || t.asidSeen != i.asid

/-- An entry of the micro-TLB is replaced. -/
def installs : Bool := !t.flushes i && i.installEn && t.hit

/-- `w_u_repl`. -/
def repl : Fin numUitlbEntries := if t.lfsr.getLsbD 0 then 1 else 0

/-- The entries after a write. -/
def writeTlb : Fin numTlbEntries → TlbStored :=
  match i.tlbEntryIn with
  | some (idx, e) =>
    if h : idx.toNat < numTlbEntries then Function.update t.tlb ⟨idx.toNat, h⟩ e else t.tlb
  | none => t.tlb

/-- Which of them have been written. -/
def writeWritten : Fin numTlbEntries → Bool :=
  match i.tlbEntryIn with
  | some (idx, _) =>
    if h : idx.toNat < numTlbEntries then Function.update t.written ⟨idx.toNat, h⟩ true
    else t.written
  | none => t.written

/-- The micro-TLB in the next cycle. -/
def nextMicro : Fin numUitlbEntries → MicroEntry :=
  if t.flushes i then fun u => { t.micro u with valid := false }
  else if i.installEn && t.hit then
    Function.update t.micro t.repl (MicroEntry.copy (t.slot t.hitIndex))
  else t.micro

/-- A clock cycle. -/
def tick : Itlb where
  tlb := t.writeTlb i
  written := t.writeWritten i
  rHits := t.hits i.va i.asid
  hit := if i.active then i.req && (List.finRange numTlbEntries).any t.rHits else true
  hitIndex := t.hitIdx
  pa := if i.active then (t.slot t.hitIdx).pa i.va else i.va.setWidth 36
  valid := if i.active then ((t.slot t.hitIdx).page i.va).v else true
  micro := t.nextMicro i
  lfsr := (t.lfsr.setWidth 7).concat
    (t.lfsr.getLsbD 7 ^^ t.lfsr.getLsbD 5 ^^ t.lfsr.getLsbD 4 ^^ t.lfsr.getLsbD 3)
  asidSeen := i.asid

end Itlb

/-- `state_t` of `l1i.sv`; `init` is `INITIALIZE`. -/
inductive FetchState where
  | init | idle | active | injectReload | reloadTurnaround | flushCache | waitForNotFull
  | initPht | waitForTlb
  deriving DecidableEq, Repr

/-- The registers of the control, with those of the TLB. -/
structure Fetch where
  itlb : Itlb
  state : FetchState
  pc : BitVec 64
  missPc : BitVec 64
  cachePc : BitVec 64
  req : Bool
  mapped : Bool
  ufastHit : Bool
  ufastValid : Bool
  itlbReady : Bool
  tlbWait : BitVec 2
  restartReq : Bool
  flushReq : Bool
  flineReq : Bool
  flineOne : Bool

/-- What the control is given in a cycle. -/
structure FetchIn where
  /-- Status, which has the mode. -/
  sr : BitVec 32
  asid : BitVec 8
  tlbEntryIn : Option (BitVec 6 × TlbStored)
  restartValid : Bool
  restartPc : BitVec 64
  flushReq : Bool
  flushLineReq : Bool
  fqFull : Bool
  memRspValid : Bool
  /-- `w_hit0 | w_hit1`. -/
  lineHit : Bool
  /-- The next pc, by what is predicted for the instructions of the line. -/
  predicted : BitVec 64
  /-- Two instructions are taken from the line, and the access goes on behind them. -/
  two : Bool
  /-- The predictor is cleared. -/
  initDone : Bool
  /-- The last set is cleared. -/
  flushDone : Bool

namespace Fetch

variable (f : Fetch) (i : FetchIn)

/-- `w_eff_hit & w_eff_valid`. -/
def translated : Bool :=
  (f.itlb.hit || f.ufastHit) && (if f.ufastHit then f.ufastValid else f.itlb.valid)

/-- `t_miss`. -/
def miss : Bool := !(f.mapped && !f.translated) && f.req && !i.lineHit

/-- `t_hit`. -/
def lineHits : Bool := !(f.mapped && !f.translated) && f.req && i.lineHit

/-- What a flush, the flush of a line or a restart makes of the registers otherwise chosen,
if there is one. -/
def redirect (n : Fetch) : Option Fetch :=
  if n.flushReq then some { n with flushReq := false, state := .flushCache }
  else if n.flineReq then
    some { n with flineReq := false, state := .flushCache, flineOne := true }
  else if n.restartReq then
    some { n with restartReq := false, pc := i.restartPc, req := false, state := .active }
  else none

/-- The registers as every state sets them that does not say otherwise. -/
def base : Fetch :=
  { f with
    cachePc := 0
    req := false
    itlbReady := false
    restartReq := i.restartValid || f.restartReq
    flushReq := f.flushReq || i.flushReq
    flineReq := f.flineReq || i.flushLineReq }

/-- `ACTIVE`: the instruction read in the cycle before is taken, or waits. -/
def active : Fetch :=
  let n := { f.base i with cachePc := f.pc, req := true, pc := f.pc + 4 }
  let waiting : Fetch := { n with pc := f.pc, missPc := f.cachePc, state := .waitForNotFull }
  match redirect i n with
  | some r => r
  | none =>
    if f.req && f.mapped && !f.itlbReady && !f.ufastHit then
      { n with pc := f.pc, missPc := f.cachePc, tlbWait := 0, state := .waitForTlb }
    else if f.req && f.cachePc.setWidth 2 != 0 then
      if i.fqFull then waiting else { n with pc := f.cachePc + 4 }
    else if f.req && f.mapped && !f.translated then
      if i.fqFull then waiting else { n with pc := f.cachePc + 4 }
    else if f.miss i then { n with state := .injectReload, missPc := f.cachePc, pc := f.pc }
    else if f.lineHits i then
      if i.fqFull then waiting
      else { n with pc := i.predicted, cachePc := if i.two then f.cachePc + 8 else f.pc }
    else n

/-- `WAIT_FOR_TLB`: the address is held until the lookup is there. -/
def waitForTlb : Fetch :=
  let n := { f.base i with cachePc := f.missPc, req := true }
  match redirect i n with
  | some r => r
  | none =>
    if f.tlbWait = 2 then { n with itlbReady := true, state := .active }
    else { n with tlbWait := f.tlbWait + 1 }

/-- The registers of the control, but for those that depend on the address it chooses. -/
def control : Fetch :=
  let n := f.base i
  match f.state with
  | .init => { n with state := .initPht }
  | .initPht => if i.initDone then { n with state := .flushCache } else n
  | .idle =>
    if n.restartReq then { n with restartReq := false, pc := i.restartPc, state := .active }
    else n
  | .active => f.active i
  | .injectReload => if i.memRspValid then { n with state := .reloadTurnaround } else n
  | .reloadTurnaround =>
    match redirect i n with
    | some r => r
    | none =>
      if i.fqFull then n else { n with cachePc := f.missPc, req := true, state := .active }
  | .flushCache =>
    if f.flineOne then { n with flineOne := false, state := .idle }
    else if i.flushDone then { n with state := .idle }
    else n
  | .waitForNotFull =>
    let n := { n with cachePc := f.missPc }
    if i.fqFull then (redirect i n).getD n else { n with req := true, state := .active }
  | .waitForTlb => f.waitForTlb i

/-- What the TLB is given. -/
def itlbIn : ItlbIn where
  asid := i.asid
  active := (mipsseg i.sr false (f.control i).cachePc).mapped
  req := true
  va := (mipsseg i.sr false (f.control i).cachePc).lAddr
  tlbEntryIn := i.tlbEntryIn
  installEn := f.itlbReady && f.itlb.hit

/-- A clock cycle. -/
def tick : Fetch :=
  let n := f.itlbIn i
  { f.control i with
    itlb := f.itlb.tick n
    mapped := n.active
    ufastHit := n.active && n.req && f.itlb.microHit n.va n.asid
    ufastValid := (f.itlb.selected n.va n.asid).pageValid n.va }

/-- What reset leaves of the entries: the valid bits of their pages are cleared, and nothing
else. -/
def reset (tlb : Fin numTlbEntries → TlbStored) (micro : Fin numUitlbEntries → MicroEntry) :
    Fetch where
  itlb :=
    { tlb := fun j =>
        { tlb j with
          page0 := { (tlb j).page0 with v := false }
          page1 := { (tlb j).page1 with v := false } }
      written := fun _ => false
      rHits := fun _ => false
      hit := false
      hitIndex := 0
      pa := 0
      valid := false
      micro := fun u => { micro u with valid := false }
      lfsr := 0x5a
      asidSeen := 0 }
  state := .init
  pc := 0
  missPc := 0
  cachePc := 0
  req := false
  mapped := false
  ufastHit := false
  ufastValid := false
  itlbReady := false
  tlbWait := 0
  restartReq := false
  flushReq := false
  flineReq := false
  flineOne := false

end Fetch

end Mmu

end R9999
