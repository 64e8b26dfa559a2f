import R9999.Iss.Translate

/-!
# Address translation in the RTL

The segment decoder (`mipsseg.sv`), the TLB (`tlb.sv`), the coprocessor 0 registers of the
TLB (`exec.sv`) and what a TLB exception does to them (`core.sv`), for the sizes of the
R4400 configuration: 40 address bits a region, 36-bit physical addresses of which the TLB
stores 30, 48 entries.  An instruction is one step here, with Status as it is for it.
-/

namespace R9999

namespace Mmu

open Iss (numTlbEntries TlbOp srExl srErl srUx srSx srKx srBev)

/-- The fields of EntryLo, with a page frame number of `w` bits. -/
structure EntryLo (w : Nat) where
  pfn : BitVec w := 0
  c : BitVec 3 := 0
  d : Bool := false
  v : Bool := false
  g : Bool := false
  deriving DecidableEq

/-- `tlb_stored_t`, with the fields of its two pages as records. -/
structure TlbStored where
  pagemask : BitVec 12 := 0
  asid : BitVec 8 := 0
  r : BitVec 2 := 0
  vpn : BitVec 27 := 0
  page0 : EntryLo 18 := {}
  page1 : EntryLo 18 := {}
  deriving DecidableEq

/-- The coprocessor 0 registers of the TLB. -/
structure TlbRegs where
  index : BitVec 6 := 0
  probeFailed : Bool := false
  entryhiAsid : BitVec 8 := 0
  entryhiR : BitVec 2 := 0
  entryhiVpn2 : BitVec 27 := 0
  entrylo0 : EntryLo 24 := {}
  entrylo1 : EntryLo 24 := {}
  pagemask : BitVec 12 := 0
  ptebase : BitVec 9 := 0
  xptebase : BitVec 31 := 0
  badvpn2 : BitVec 27 := 0
  badvaddr : BitVec 64 := 0

/-- The registers, the entries and which of them have been written.  The copy that TLBR
reads (`r_shadow_tlb`) is written together with the entries. -/
structure Rtl where
  regs : TlbRegs := {}
  tlb : Fin numTlbEntries → TlbStored := fun _ => {}
  written : Fin numTlbEntries → Bool := fun _ => false

/-- Bits of Status. -/
abbrev srHas (sr bit : BitVec 32) : Bool := sr &&& bit != 0

/-- `r_sr_ksu`. -/
def ksu (sr : BitVec 32) : BitVec 2 := sr.extractLsb' 3 2

def inKernelMode (sr : BitVec 32) : Bool := ksu sr == 0 || srHas sr srExl || srHas sr srErl

def inSupervisorMode (sr : BitVec 32) : Bool := ksu sr == 1 && !srHas sr srExl && !srHas sr srErl

def inUserMode (sr : BitVec 32) : Bool := ksu sr == 2 && !srHas sr srExl && !srHas sr srErl

/-- `w_in_64b_mode` of `mipsseg.sv`: the current mode uses 64-bit addresses. -/
def in64bMode (sr : BitVec 32) : Bool :=
  (inKernelMode sr && srHas sr srKx) || (inSupervisorMode sr && srHas sr srSx) ||
    (inUserMode sr && srHas sr srUx)

/-- The outputs of `mipsseg`. -/
structure Seg where
  lAddr : BitVec 64
  cache : Bool
  mapped : Bool
  seg : BitVec 2
  badPerms : Bool

/-- `w_va`. -/
def effective (sr : BitVec 32) (vAddr : BitVec 64) : BitVec 64 :=
  if in64bMode sr then vAddr else (vAddr.setWidth 32).signExtend 64

/-- The decoding of the segment, without the check of the permissions. -/
def segment (sr : BitVec 32) (erl : Bool) (va : BitVec 64) : Seg :=
  if in64bMode sr ∧ va.extractLsb' 62 2 = 2 then
    -- xkphys
    { lAddr := (va.setWidth 59).setWidth 64, cache := va.extractLsb' 59 3 == 3, mapped := false,
      seg := 0, badPerms := false }
  else if in64bMode sr = false ∨ va.extractLsb' 32 32 = 0xffffffff then
    if va.getLsbD 31 = false then
      { lAddr := va, cache := !erl, mapped := !erl, seg := 3, badPerms := false }
    else if va.extractLsb' 29 3 = 4 then
      { lAddr := (va.setWidth 29).setWidth 64, cache := true, mapped := false, seg := 0,
        badPerms := false }
    else if va.extractLsb' 29 3 = 5 then
      { lAddr := (va.setWidth 29).setWidth 64, cache := false, mapped := false, seg := 1,
        badPerms := false }
    else { lAddr := va, cache := false, mapped := true, seg := 2, badPerms := false }
  else if va.extractLsb' 62 2 = 0 then
    { lAddr := va, cache := true, mapped := true, seg := 3, badPerms := false }
  else { lAddr := va, cache := false, mapped := true, seg := 2, badPerms := false }

/-- `w_is_sseg`. -/
def isSseg (sr : BitVec 32) (va : BitVec 64) : Bool :=
  if in64bMode sr = false ∨ va.extractLsb' 32 32 = 0xffffffff then va.extractLsb' 29 3 == 6
  else va.extractLsb' 62 2 == 1

/-- `w_va_oor`: a 64-bit address that does not fit in its region. -/
def vaOor (sr : BitVec 32) (va : BitVec 64) : Bool :=
  in64bMode sr && va.extractLsb' 31 31 != BitVec.allOnes 31 && va.extractLsb' 40 22 != 0

/-- `mipsseg`. -/
def mipsseg (sr : BitVec 32) (erl : Bool) (vAddr : BitVec 64) : Seg :=
  let va := effective sr vAddr
  let out := segment sr erl va
  let perms :=
    if inUserMode sr then out.seg != 3
    else if inSupervisorMode sr then !(out.seg == 3 || isSseg sr va)
    else false
  { out with badPerms := perms || (out.mapped && vaOor sr va) }

namespace TlbStored

variable (e : TlbStored) (va : BitVec 64)

/-- `w_hit8k`. -/
def hit8k : Bool :=
  ((e.vpn ^^^ va.extractLsb' 13 27) &&& (BitVec.allOnes 15 ++ ~~~e.pagemask)) == 0 &&
    e.r == va.extractLsb' 62 2

/-- `w_addr_space_match`. -/
def addrSpaceMatch (asid : BitVec 8) : Bool := e.asid == asid || (e.page0.g && e.page1.g)

/-- `w_pgsz`: every other mask counts as the largest. -/
def pgsz : Nat :=
  if e.pagemask = 0x000 then 0
  else if e.pagemask = 0x003 then 1
  else if e.pagemask = 0x00f then 2
  else if e.pagemask = 0x03f then 3
  else if e.pagemask = 0x0ff then 4
  else if e.pagemask = 0x3ff then 5
  else 6

/-- `w_odd` chooses the page. -/
def page : EntryLo 18 := if va.getLsbD (12 + 2 * e.pgsz) then e.page1 else e.page0

/-- `w_pa4k`: the page frame number without the bits that the page covers, and the page
offset. -/
def pa : BitVec 36 :=
  let pfn : BitVec 24 := (e.page va).pfn.setWidth 24
  (((pfn >>> (2 * e.pgsz)) <<< (2 * e.pgsz)).setWidth 36 <<< 12) |||
    (va.setWidth 36 &&& BitVec.ofNat 36 (2 ^ (12 + 2 * e.pgsz) - 1))

end TlbStored

/-- `w_hits`. -/
def Rtl.hits (t : Rtl) (va : BitVec 64) (i : Fin numTlbEntries) : Bool :=
  (t.tlb i).addrSpaceMatch t.regs.entryhiAsid && (t.tlb i).hit8k va && t.written i

/-- The lowest entry that hits. -/
def Rtl.search (t : Rtl) (va : BitVec 64) : Option (Fin numTlbEntries) :=
  (List.finRange numTlbEntries).find? (t.hits va)

/-- A TLB exception, with what the handler finds. -/
structure Fault where
  /-- Cause.ExcCode. -/
  code : BitVec 5
  vector : BitVec 64
  badVAddr : BitVec 64
  context : BitVec 64
  xcontext : BitVec 64
  entryHi : BitVec 64
  deriving DecidableEq, Repr

/-- What an access comes to; of a physical address, the bits that the TLB stores. -/
inductive Access where
  | addressError
  | pa (pa : BitVec 30)
  | fault (f : Fault)
  deriving DecidableEq, Repr

/-- The value of Context. -/
def TlbRegs.context (r : TlbRegs) : BitVec 64 :=
  (r.ptebase ++ r.badvpn2.setWidth 19 ++ (0 : BitVec 4) : BitVec 32).signExtend 64

/-- The value of XContext. -/
def TlbRegs.xcontext (r : TlbRegs) : BitVec 64 :=
  (r.xptebase ++ r.entryhiR ++ r.badvpn2 ++ (0 : BitVec 4) : BitVec 64)

/-- The value of EntryHi. -/
def TlbRegs.entryHi (r : TlbRegs) : BitVec 64 :=
  (r.entryhiR ++ (0 : BitVec 22) ++ r.entryhiVpn2 ++ (0 : BitVec 5) ++ r.entryhiAsid : BitVec 64)

/-- `core_wr_badvaddr` and `save_to_tlb_regs`. -/
def TlbRegs.saveFault (r : TlbRegs) (addr : BitVec 64) : TlbRegs :=
  { r with
    badvaddr := addr
    badvpn2 := addr.extractLsb' 13 27
    entryhiR := addr.extractLsb' 62 2
    entryhiVpn2 := addr.extractLsb' 13 27 }

/-- The exception vector; a refill has a vector of its own when Status.EXL is clear. -/
def vector (sr : BitVec 32) (refill : Bool) : BitVec 64 :=
  ((if srHas sr srBev then 0xbfc00200 else 0x80000000 : BitVec 32) |||
    (if refill && !srHas sr srExl then (if in64bMode sr then 0x80 else 0x0) else 0x180)).signExtend
      64

/-- A TLB exception of an access whose address is recorded as `addr`. -/
def Rtl.raise (t : Rtl) (sr : BitVec 32) (addr : BitVec 64) (code : BitVec 5) (refill : Bool) :
    Access × Rtl :=
  let regs := t.regs.saveFault addr
  (.fault
    { code, vector := vector sr refill, badVAddr := regs.badvaddr, context := regs.context,
      xcontext := regs.xcontext, entryHi := regs.entryHi }, { t with regs })

/-- The lookup of a mapped address, whose exceptions record `addr`. -/
def Rtl.lookup (t : Rtl) (sr : BitVec 32) (va addr : BitVec 64) (op : TlbOp) : Access × Rtl :=
  let code : BitVec 5 := if op = .store then 3 else 2
  match t.search va with
  | none => t.raise sr addr code true
  | some i =>
    let page := (t.tlb i).page va
    if page.v = false then t.raise sr addr code false
    else if op = .store ∧ page.d = false then t.raise sr addr 1 false
    else (.pa (((t.tlb i).pa va).setWidth 30), t)

/-- An access.  The I-side is not told of Status.ERL, and records the pc itself as the
address of a fault; the D-side records what `mipsseg` makes of its address. -/
def Rtl.access (t : Rtl) (sr : BitVec 32) (vAddr : BitVec 64) (op : TlbOp) : Access × Rtl :=
  let out := mipsseg sr (srHas sr srErl && op != .fetch) vAddr
  let addr := if op = .fetch then vAddr else out.lAddr
  if out.badPerms then (.addressError, { t with regs := { t.regs with badvaddr := addr } })
  else if out.mapped = false then (.pa (out.lAddr.setWidth 30), t)
  else t.lookup sr out.lAddr addr op

/-- The address that TLBP looks up, from EntryHi. -/
def TlbRegs.probeVa (r : TlbRegs) : BitVec 64 :=
  (r.entryhiR ++ (0 : BitVec 22) ++ r.entryhiVpn2 ++ (0 : BitVec 13) : BitVec 64)

/-- TLBP.  Without a match the index is zero. -/
def Rtl.tlbp (t : Rtl) : Rtl :=
  { t with
    regs :=
      match t.search t.regs.probeVa with
      | some i => { t.regs with index := BitVec.ofNat 6 i.val, probeFailed := false }
      | none => { t.regs with index := 0, probeFailed := true } }

/-- The value of Index. -/
def TlbRegs.indexValue (r : TlbRegs) : BitVec 32 :=
  (BitVec.ofBool r.probeFailed ++ (0 : BitVec 25) ++ r.index : BitVec 32)

/-- The entry that TLBWI and TLBWR write, cut to what the TLB stores. -/
def TlbRegs.staged (r : TlbRegs) : TlbStored where
  pagemask := r.pagemask
  asid := r.entryhiAsid
  r := r.entryhiR
  vpn := r.entryhiVpn2
  page0 := { r.entrylo0 with pfn := r.entrylo0.pfn.setWidth 18 }
  page1 := { r.entrylo1 with pfn := r.entrylo1.pfn.setWidth 18 }

/-- The write of an entry. -/
def Rtl.writeEntry (t : Rtl) (idx : BitVec 6) : Rtl :=
  if h : idx.toNat < numTlbEntries then
    { t with
      tlb := Function.update t.tlb ⟨idx.toNat, h⟩ t.regs.staged
      written := Function.update t.written ⟨idx.toNat, h⟩ true }
  else t

/-- TLBR.  An index that is out of range reads zeros. -/
def Rtl.tlbr (t : Rtl) : Rtl :=
  let e := if h : t.regs.index.toNat < numTlbEntries then t.tlb ⟨t.regs.index.toNat, h⟩ else {}
  { t with
    regs :=
      { t.regs with
        entryhiAsid := e.asid
        entryhiR := e.r
        entryhiVpn2 := e.vpn
        pagemask := e.pagemask
        entrylo0 := { e.page0 with pfn := e.page0.pfn.setWidth 24 }
        entrylo1 := { e.page1 with pfn := e.page1.pfn.setWidth 24 } } }

/-- The fields of a value written to EntryLo. -/
def EntryLo.ofValue (v : BitVec 64) : EntryLo 24 where
  pfn := v.extractLsb' 6 24
  c := v.extractLsb' 3 3
  d := v.getLsbD 2
  v := v.getLsbD 1
  g := v.getLsbD 0

/-- The registers that are written to set up an entry. -/
inductive StagingReg where
  | index | entryLo0 | entryLo1 | pageMask | entryHi
  deriving DecidableEq, Repr

/-- MTC0 and DMTC0, which write the whole general register. -/
def TlbRegs.write (r : TlbRegs) (reg : StagingReg) (v : BitVec 64) : TlbRegs :=
  match reg with
  | .index => { r with index := v.setWidth 6, probeFailed := v.getLsbD 31 }
  | .entryLo0 => { r with entrylo0 := .ofValue v }
  | .entryLo1 => { r with entrylo1 := .ofValue v }
  | .pageMask => { r with pagemask := v.extractLsb' 13 12 }
  | .entryHi =>
    { r with
      entryhiAsid := v.setWidth 8
      entryhiR := v.extractLsb' 62 2
      entryhiVpn2 := v.extractLsb' 13 27 }

end Mmu

end R9999
