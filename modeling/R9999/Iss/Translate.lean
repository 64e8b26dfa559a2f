import R9999.Iss.State

/-!
# Address translation in the interpreter

`va_translate` decodes the unmapped segments, looks in a direct-mapped cache of recent
translations (the micro-TLB), and otherwise searches the architectural TLB in index order.
The debug switch `NOUTLB` skips the look into the micro-TLB, so that every lookup goes to
the TLB; it is an argument here.
-/

namespace R9999

namespace Iss

/-- `tlb_op`. -/
inductive TlbOp where
  | fetch | load | store
  deriving DecidableEq, Repr

/-- `is_64b_addr_mode`: the current mode uses 64-bit addresses. -/
def is64bAddrMode (s : State) : Bool :=
  let ksu := (s.cpr0 Cpr0.sr).extractLsb' 3 2
  let exl := s.srHas srExl
  let erl := s.srHas srErl
  let kernel := ksu == 0 || exl || erl
  let user := ksu == 2 && !exl && !erl
  let super := ksu == 1 && !exl && !erl
  (kernel && s.srHas srKx) || (super && s.srHas srSx) || (user && s.srHas srUx)

/-- `VPN2_MASK`. -/
def vpn2Mask : BitVec 64 := (1 <<< (segbits - 13)) - 1

/-- `tlb_set_fault_state`. -/
def tlbSetFaultState (s : State) (va : BitVec 64) : State :=
  let s := s.setCpr0Both Cpr0.badVAddr va
  let r := (va >>> 62) &&& 0x3
  let vpn2 := (va >>> 13) &&& vpn2Mask
  let asid := s.cpr0_64 Cpr0.entryHi &&& 0xff
  let s := s.setCpr0Both Cpr0.entryHi ((r <<< 62) ||| (vpn2 <<< 13) ||| asid)
  let s := s.setCpr0Both Cpr0.context
    ((s.cpr0_64 Cpr0.context &&& ~~~0x7fffff#64) ||| (((va >>> 13) &&& 0x7ffff) <<< 4))
  s.setCpr0Both Cpr0.xcontext
    ((s.cpr0_64 Cpr0.xcontext &&& (BitVec.allOnes 64 <<< (segbits - 7))) ||| (vpn2 <<< 4) |||
      (r <<< (segbits - 9)))

/-- `raise_tlb`. -/
def raiseTlb (s : State) (va : BitVec 64) (exccode : BitVec 32) (isRefill isXtlb : Bool) :
    State :=
  let exlWasSet := s.srHas srExl
  let s := (setExcPc (tlbSetFaultState s va)).enterException exccode
  let s := s.setPc (sext32 (excVector s (isRefill && !exlWasSet) exlWasSet isXtlb))
  { s with tlbFault := true }

/-- The unmapped segments: kseg0 and kseg1 in their 32-bit form, and xkphys. -/
def unmapped (va : BitVec 64) : Option (BitVec 32) :=
  let hi32 : BitVec 32 := (va >>> 32).setWidth 32
  let lo32 : BitVec 32 := va.setWidth 32
  if hi32 == 0 || hi32 == 0xffffffff then
    let seg := lo32 >>> 29
    if seg == 4 || seg == 5 then some (lo32 &&& 0x1fffffff) else none
  else if (va >>> 62) &&& 0x3 == 2 then some ((va &&& 0xffffffffff).setWidth 32)
  else none

namespace TlbEntry

variable (e : TlbEntry) (va : BitVec 64)

/-- `pm`, the implemented bits of PageMask. -/
def pm : BitVec 64 := e.pageMask.setWidth 64 &&& 0x1ffe000

/-- The entry is global when both of its pages say so. -/
def isGlobal : Bool := e.entryLo0.getLsbD 0 && e.entryLo1.getLsbD 0

/-- `vpnMask`, the bits of the address that the entry compares besides the region. -/
def vpnMask : BitVec 64 := ~~~(e.pm ||| 0x1fff) &&& (vpn2Mask <<< 13)

/-- The entry matches an address and an ASID. -/
def hits (curAsid : BitVec 64) : Bool :=
  let vpnMatch := (va &&& e.vpnMask) == (e.entryHi &&& e.vpnMask)
    && ((va >>> 62) &&& 0x3) == ((e.entryHi >>> 62) &&& 0x3)
  let asidMatch := e.isGlobal || curAsid == (e.entryHi &&& 0xff)
  vpnMatch && asidMatch

/-- `pair_mask`. -/
def pairMask : BitVec 64 := e.pm ||| 0x1fff

/-- `sel_bit` tells the even from the odd page. -/
def selBit : BitVec 64 := (e.pairMask + 1) >>> 1

/-- `off_mask`. -/
def offMask : BitVec 64 := e.pairMask >>> 1

/-- `e_lo`, the half of the entry for an address. -/
def lo : BitVec 64 := if va &&& e.selBit != 0 then e.entryLo1 else e.entryLo0

/-- `pa`. -/
def pa : BitVec 64 :=
  (((e.lo va >>> 6) &&& 0xfffffff) <<< 12) ||| (va &&& e.offMask)

end TlbEntry

/-- The search of the TLB: the first entry that matches. -/
def tlbSearch (tlb : Fin numTlbEntries → TlbEntry) (va curAsid : BitVec 64) :
    Option TlbEntry :=
  ((List.finRange numTlbEntries).map tlb).find? (·.hits va curAsid)

/-- `utlb_entry`. -/
structure UtlbEntry where
  vpn : BitVec 64 := 0
  asid : BitVec 64 := 0
  ppn : BitVec 32 := 0
  dirty : Bool := false
  valid : Bool := false

/-- `g_utlb`. -/
abbrev MicroTlb := BitVec 6 → UtlbEntry

/-- `g_utlb` at the start of the program. -/
def coldUtlb : MicroTlb := fun _ => {}

/-- `utlb_flush`. -/
def utlbFlush (g : MicroTlb) : MicroTlb := fun i => { g i with valid := false }

/-- The look into the micro-TLB hits.  A store to a page that is not dirty is left to the
TLB, which raises Modified. -/
def UtlbEntry.hits (ce : UtlbEntry) (vpn curAsid : BitVec 64) (op : TlbOp) : Bool :=
  ce.valid && ce.vpn == vpn && ce.asid == curAsid && !(op == .store && !ce.dirty)

/-- The part of `va_translate` that searches the TLB for a mapped address, and puts what
it finds into the micro-TLB.  The physical address is meaningless when an exception is
raised. -/
def camTranslate (g : MicroTlb) (s : State) (va : BitVec 64) (op : TlbOp) :
    BitVec 32 × State × MicroTlb :=
  let xtlb := is64bAddrMode s
  let curAsid := s.cpr0_64 Cpr0.entryHi &&& 0xff
  let vpn := va >>> 12
  let code : BitVec 32 := if op = .store then 3 else 2
  match tlbSearch s.tlb va curAsid with
  | none => (0, raiseTlb s va code true xtlb, g)
  | some e =>
    let eLo := e.lo va
    if eLo.getLsbD 1 = false then (0, raiseTlb s va code false xtlb, g)
    else if op = .store ∧ eLo.getLsbD 2 = false then (0, raiseTlb s va 1 false xtlb, g)
    else
      let pa := e.pa va
      (pa.setWidth 32, s,
        Function.update g (vpn.setWidth 6)
          { vpn, asid := curAsid, ppn := (pa >>> 12).setWidth 32,
            dirty := eLo.getLsbD 2, valid := true })

/-- `va_translate`. -/
def vaTranslate (noUtlb : Bool) (g : MicroTlb) (s : State) (va : BitVec 64) (op : TlbOp) :
    BitVec 32 × State × MicroTlb :=
  let va := if is64bAddrMode s then va else sext32 (va.setWidth 32)
  let s := if op = .load then { s with lastLdVa := va } else s
  match unmapped va with
  | some pa => (pa, s, g)
  | none =>
    let curAsid := s.cpr0_64 Cpr0.entryHi &&& 0xff
    let vpn := va >>> 12
    let ce := g (vpn.setWidth 6)
    if noUtlb = false ∧ ce.hits vpn curAsid op then
      ((ce.ppn <<< 12) ||| (va &&& 0xfff).setWidth 32, s, g)
    else camTranslate g s va op

/-- The write of a TLB entry. -/
def State.setTlb (s : State) (i : Fin numTlbEntries) (e : TlbEntry) : State :=
  { s with tlb := Function.update s.tlb i e }

/-- The entry that TLBWI and TLBWR write, from the staging registers. -/
def State.staged (s : State) : TlbEntry where
  entryHi := s.cpr0_64 Cpr0.entryHi
  entryLo0 := s.cpr0_64 Cpr0.entryLo0
  entryLo1 := s.cpr0_64 Cpr0.entryLo1
  pageMask := s.cpr0 Cpr0.pageMask

/-- The write of the staging registers, which the mirror suppresses. -/
def State.writeStaged (s : State) (idx : BitVec 32) : State :=
  if h : idx.toNat < numTlbEntries then
    if s.tlbExt then s else s.setTlb ⟨idx.toNat, h⟩ s.staged
  else s

/-- TLBWI. -/
def tlbwi (g : MicroTlb) (s : State) : State × MicroTlb :=
  (s.writeStaged (s.cpr0 Cpr0.index &&& 63), utlbFlush g)

/-- TLBWR.  Random counts down to Wired and wraps, unless the mirror writes the TLB. -/
def tlbwr (g : MicroTlb) (s : State) : State × MicroTlb :=
  let s := s.writeStaged (s.cpr0 Cpr0.random &&& 63)
  let wired := s.cpr0 Cpr0.wired &&& 63
  let random := s.cpr0 Cpr0.random &&& 63
  let s := if s.tlbExt then s
    else s.setCpr0 Cpr0.random
      (if random ≤ wired then BitVec.ofNat 32 (numTlbEntries - 1) else random - 1)
  (s, utlbFlush g)

/-- `iss_apply_tlb_write`, the write of the RTL's mirror. -/
def issApplyTlbWrite (g : MicroTlb) (s : State) (idx : Int) (ehi elo0 elo1 : BitVec 64)
    (pm : BitVec 32) : State × MicroTlb :=
  if h : 0 ≤ idx ∧ idx < numTlbEntries then
    (s.setTlb ⟨idx.toNat, by omega⟩
      { entryHi := ehi, entryLo0 := elo0, entryLo1 := elo1, pageMask := pm }, utlbFlush g)
  else (s, g)

end Iss

end R9999
