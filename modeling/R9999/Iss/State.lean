import Mathlib.Logic.Function.Basic
import R9999.Hw.Sizes

/-!
# The interpreter's state and its exceptions

The golden model of the co-simulation is an instruction interpreter (`interpret.cc`).
Its state is `state_t` together with the globals that `execMips` reads and writes, less
what no instruction reads back (the instruction histogram and count, the debug output).
The coprocessor 0 registers are kept twice, as 32-bit and as 64-bit values, and not every
write updates both.  The configuration is the R4400 one: 48 TLB entries and 40 virtual
address bits a region, big-endian, MIPS III.
-/

namespace R9999

namespace Iss

/-- `NUM_TLB_ENTRIES`. -/
def numTlbEntries : Nat := 48

/-- `SEGBITS`, the virtual-address bits of a region. -/
def segbits : Nat := 40

/-- `tlb_entry_t`. -/
structure TlbEntry where
  /-- `R[63:62]`, `VPN2[39:13]` and `ASID[7:0]`. -/
  entryHi : BitVec 64 := 0
  /-- `PFN[33:6]`, `C[5:3]`, `D[2]`, `V[1]` and `G[0]` of the even page. -/
  entryLo0 : BitVec 64 := 0
  entryLo1 : BitVec 64 := 0
  pageMask : BitVec 32 := 0

/-- The numbers of the coprocessor 0 registers, `CPR0_*`. -/
abbrev Cpr0 := BitVec 5

namespace Cpr0

abbrev index : Cpr0 := 0
abbrev random : Cpr0 := 1
abbrev entryLo0 : Cpr0 := 2
abbrev entryLo1 : Cpr0 := 3
abbrev context : Cpr0 := 4
abbrev pageMask : Cpr0 := 5
abbrev wired : Cpr0 := 6
abbrev badVAddr : Cpr0 := 8
abbrev entryHi : Cpr0 := 10
abbrev sr : Cpr0 := 12
abbrev cause : Cpr0 := 13
abbrev epc : Cpr0 := 14
abbrev prid : Cpr0 := 15
abbrev config : Cpr0 := 16
abbrev xcontext : Cpr0 := 20
abbrev errorEpc : Cpr0 := 30

end Cpr0

/-- The bits `SR_*` of the Status register. -/
abbrev srIe : BitVec 32 := 0x1
abbrev srExl : BitVec 32 := 0x2
abbrev srErl : BitVec 32 := 0x4
abbrev srUx : BitVec 32 := 0x20
abbrev srSx : BitVec 32 := 0x40
abbrev srKx : BitVec 32 := 0x80
abbrev srBev : BitVec 32 := 0x400000
abbrev srFr : BitVec 32 := 0x4000000
abbrev srCu1 : BitVec 32 := 0x20000000

/-- Cause.BD, and the masks of Cause.ExcCode and Cause.CE. -/
abbrev causeBd : BitVec 32 := 0x80000000
abbrev causeExcCode : BitVec 32 := 0x7c
abbrev causeCe : BitVec 32 := 0x30000000

/-- `state_t` and the interpreter's globals. -/
structure State where
  pc : BitVec 64
  gpr : BitVec 5 → BitVec 64
  lo : BitVec 64
  hi : BitVec 64
  cpr0 : Cpr0 → BitVec 32
  cpr0_64 : Cpr0 → BitVec 64
  cpr1 : BitVec 5 → BitVec 64
  /-- `fcr1[CP1_CR31]`, the FCSR. -/
  fcsr : BitVec 32
  /-- `fcr1[CP1_CR25]`, the FCCR. -/
  fccr : BitVec 32
  /-- `fcr1[CP1_CR26]`. -/
  fexr : BitVec 32
  /-- `fcr1[CP1_CR28]`. -/
  fenr : BitVec 32
  /-- The bytes of `mem`, whose addresses are the low 32 bits of a physical address. -/
  mem : BitVec 32 → BitVec 8
  tlb : Fin numTlbEntries → TlbEntry
  llLinkValid : Bool
  llLinkAddr : BitVec 64
  inDelaySlot : Bool
  tlbFault : Bool
  brk : Bool
  /-- `g_iss_tlb_ext`: the RTL's mirror is the only writer of the TLB. -/
  tlbExt : Bool
  /-- `g_iss_os_mode`: SYSCALL and BREAK trap instead of halting. -/
  osMode : Bool
  /-- `g_iss_last_ld_va`. -/
  lastLdVa : BitVec 64

namespace State

variable (s : State)

/-- A test of bits of the Status register. -/
def srHas (bit : BitVec 32) : Bool := s.cpr0 Cpr0.sr &&& bit != 0

def setPc (v : BitVec 64) : State := { s with pc := v }

/-- `s->gpr[r] = v`. -/
def setGpr (r : BitVec 5) (v : BitVec 64) : State := { s with gpr := Function.update s.gpr r v }

/-- `s->cpr0[r] = v`, which leaves the 64-bit copy as it is. -/
def setCpr0 (r : Cpr0) (v : BitVec 32) : State :=
  { s with cpr0 := Function.update s.cpr0 r v }

/-- A write of both copies of a coprocessor 0 register. -/
def setCpr0Both (r : Cpr0) (v : BitVec 64) : State :=
  { s with
    cpr0 := Function.update s.cpr0 r (v.setWidth 32)
    cpr0_64 := Function.update s.cpr0_64 r v }

end State

/-- The state at the start of the program, after `initState`: Status has ERL, BEV, FR, CU0
and CU2 set, and Random is at the last entry. -/
def initState (mem : BitVec 32 → BitVec 8) : State where
  pc := 0
  gpr _ := 0
  lo := 0
  hi := 0
  cpr0 r :=
    if r = Cpr0.sr then 0x54400004
    else if r = Cpr0.random then 47
    else if r = Cpr0.prid then 0x440
    else if r = Cpr0.config then 0x2e483
    else 0
  cpr0_64 r := if r = Cpr0.prid then 0x440 else if r = Cpr0.config then 0x2e483 else 0
  cpr1 _ := 0
  fcsr := 0
  fccr := 0
  fexr := 0
  fenr := 0
  mem
  tlb _ := {}
  llLinkValid := false
  llLinkAddr := 0
  inDelaySlot := false
  tlbFault := false
  brk := false
  tlbExt := false
  osMode := false
  lastLdVa := 0

/-- `sext32`. -/
def sext32 (v : BitVec 32) : BitVec 64 := v.signExtend 64

/-- `set_exc_pc`: every exception breaks the LL/SC link, and EPC and Cause.BD are written
only when Status.EXL is clear. -/
def setExcPc (s : State) : State :=
  let s := { s with llLinkValid := false }
  if s.srHas srExl then s
  else if s.inDelaySlot then
    (s.setCpr0Both Cpr0.epc (s.pc - 4)).setCpr0 Cpr0.cause (s.cpr0 Cpr0.cause ||| causeBd)
  else
    (s.setCpr0Both Cpr0.epc s.pc).setCpr0 Cpr0.cause (s.cpr0 Cpr0.cause &&& ~~~causeBd)

/-- The base of the exception vectors, by Status.BEV. -/
def vectorBase (s : State) : BitVec 32 := if s.srHas srBev then 0xBFC00200 else 0x80000000

/-- `exc_vector_general`. -/
def excVectorGeneral (s : State) : BitVec 32 := vectorBase s ||| 0x180

/-- `exc_vector`: a refill taken with Status.EXL clear has a vector of its own. -/
def excVector (s : State) (isRefill exlWasSet isXtlb : Bool) : BitVec 32 :=
  vectorBase s +
    (if isRefill && !exlWasSet then (if isXtlb then 0x080 else 0x000) else 0x180)

/-- Cause.ExcCode gets `code`, Status.ERL is cleared and Status.EXL set. -/
def State.enterException (s : State) (code : BitVec 32) : State :=
  let s := s.setCpr0 Cpr0.cause ((s.cpr0 Cpr0.cause &&& ~~~causeExcCode) ||| (code <<< 2))
  s.setCpr0 Cpr0.sr ((s.cpr0 Cpr0.sr &&& ~~~srErl) ||| srExl)

/-- What the exceptions with the general vector have in common. -/
def raiseGeneral (code : BitVec 32) (s : State) : State :=
  let s := (setExcPc s).enterException code
  s.setPc (sext32 (excVectorGeneral s))

/-- `raise_adel`. -/
def raiseAdel : State → State := raiseGeneral 4

/-- `raise_ades`. -/
def raiseAdes : State → State := raiseGeneral 5

/-- `take_exception_ri`; `raise_ri` is the same with a message. -/
def takeExceptionRi : State → State := raiseGeneral 10

/-- `raise_overflow`. -/
def raiseOverflow : State → State := raiseGeneral 12

/-- `raise_trap`. -/
def raiseTrap : State → State := raiseGeneral 13

/-- `take_exception_cpu`: Cause.CE gets the number of the coprocessor. -/
def takeExceptionCpu (s : State) (ce : BitVec 32) : State :=
  let s := setExcPc s
  let s := s.setCpr0 Cpr0.cause
    ((s.cpr0 Cpr0.cause &&& ~~~causeExcCode &&& ~~~causeCe) ||| (11 <<< 2) |||
      ((ce &&& 0x3) <<< 28))
  let s := s.setCpr0 Cpr0.sr ((s.cpr0 Cpr0.sr &&& ~~~srErl) ||| srExl)
  s.setPc (sext32 (excVectorGeneral s))

/-- `take_exception_fpe`: FCSR.Cause gets the Unimplemented Operation bit. -/
def takeExceptionFpe (s : State) : State :=
  let s := (setExcPc s).enterException 15
  let s := { s with fcsr := s.fcsr ||| (1 <<< 17) }
  s.setPc (sext32 (excVectorGeneral s))

end Iss

end R9999
