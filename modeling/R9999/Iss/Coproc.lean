import R9999.Iss.Memory

/-!
# The coprocessor instructions

Coprocessor 0 (`execMips`, opcode 0x10) and coprocessor 1 (`execCoproc1` and the loads and
stores of its registers).  The results of floating-point arithmetic and compares are the
host's, and are a parameter.
-/

namespace R9999

namespace Iss

/-- TLBR: the entry at Index goes to the staging registers. -/
def tlbr (s : State) : State :=
  let idx := s.cpr0 Cpr0.index &&& 63
  if h : idx.toNat < numTlbEntries then
    let e := s.tlb ⟨idx.toNat, h⟩
    (((s.setCpr0Both Cpr0.entryHi e.entryHi).setCpr0Both Cpr0.entryLo0 e.entryLo0).setCpr0Both
      Cpr0.entryLo1 e.entryLo1).setCpr0 Cpr0.pageMask e.pageMask
  else s

/-- The entry matches what TLBP looks for. -/
def TlbEntry.probeHits (e : TlbEntry) (probeHi : BitVec 64) : Bool :=
  let mask := ~~~((e.pageMask ||| 0x1fff).setWidth 64 : BitVec 64)
  (probeHi &&& mask) == (e.entryHi &&& mask)
    && (e.isGlobal || (probeHi &&& 0xff) == (e.entryHi &&& 0xff))

/-- TLBP: the index of the first entry that matches EntryHi, or bit 31. -/
def tlbp (s : State) : State :=
  let probeHi := s.cpr0_64 Cpr0.entryHi
  match (List.finRange numTlbEntries).find? fun k => (s.tlb k).probeHits probeHi with
  | some k => s.setCpr0 Cpr0.index (BitVec.ofNat 32 k.val)
  | none => s.setCpr0 Cpr0.index 0x80000000

/-- ERET, whose target is set four bytes early, for the `s->pc += 4` that follows. -/
def eret (s : State) : State :=
  let s := { s with llLinkValid := false }
  if s.srHas srErl then
    (s.setPc (sext32 (s.cpr0 Cpr0.errorEpc) - 4)).setCpr0 Cpr0.sr (s.cpr0 Cpr0.sr &&& ~~~srErl)
  else
    (s.setPc (s.cpr0_64 Cpr0.epc - 4)).setCpr0 Cpr0.sr (s.cpr0 Cpr0.sr &&& ~~~srExl)

/-- MFC0: register 7 is the simulator's output port, and Status.CU2 reads as one. -/
def mfc0 (s : State) (rd : Cpr0) : BitVec 64 :=
  if rd = 7 then 0
  else sext32 (if rd = Cpr0.sr then s.cpr0 rd ||| 0x40000000 else s.cpr0 rd)

/-- The write of MTC0 and DMTC0: PRId and Config are read-only. -/
def writeCpr0 (s : State) (rd : Cpr0) (v : BitVec 64) : State :=
  if rd ≠ Cpr0.prid ∧ rd ≠ Cpr0.config then s.setCpr0Both rd v else s

/-- What MTC0 writes: the whole register to EntryHi, EPC and ErrorEPC, its low word to the
others. -/
def mtc0Value (rd : Cpr0) (v : BitVec 64) : BitVec 64 :=
  if rd = Cpr0.entryHi ∨ rd = Cpr0.epc ∨ rd = Cpr0.errorEpc then v else sext32 (lo32 v)

/-- Opcode 0x10, and what is not a coprocessor's. -/
def coproc0 (i : Word) (insn : Insn) (s : State) : Effect :=
  match insn with
  | .tlbr => .next (tlbr s)
  | .tlbwi => .next (tlbwi coldUtlb s).1
  | .tlbwr => .next (tlbwr coldUtlb s).1
  | .tlbp => .next (tlbp s)
  | .eret => .next (eret s)
  | .wait => if s.srHas srIe then .next s else .stop
  | .di =>
    let v := s.cpr0 Cpr0.sr
    let s := if i.rt ≠ 0 then s.setGpr i.rt (v.setWidth 64) else s
    .next (s.setCpr0 Cpr0.sr (v &&& ~~~srIe))
  | .ei =>
    let v := s.cpr0 Cpr0.sr
    let s := if i.rt ≠ 0 then s.setGpr i.rt (v.setWidth 64) else s
    .next (s.setCpr0 Cpr0.sr (v ||| srIe))
  | .mfc0 => write s i.rt (mfc0 s i.rd)
  | .dmfc0 => write s i.rt (s.cpr0_64 i.rd)
  | .mtc0 => .next (writeCpr0 s i.rd (mtc0Value i.rd (s.gpr i.rt)))
  | .dmtc0 => .next (writeCpr0 s i.rd (s.gpr i.rt))
  | _ => memory i insn s

/-- The host's floating-point arithmetic: what an instruction leaves in its destination
register, and what a compare finds, from the registers and the FCSR. -/
structure Fpu where
  arith : Word → (BitVec 5 → BitVec 64) → BitVec 32 → BitVec 64
  cond : Word → (BitVec 5 → BitVec 64) → Bool

/-- `s->cpr1[r] = v`. -/
def State.setCpr1 (s : State) (r : BitVec 5) (v : BitVec 64) : State :=
  { s with cpr1 := Function.update s.cpr1 r v }

/-- `fcc_bit`. -/
def fccBit (cc : BitVec 3) : Nat := if cc = 0 then 23 else 24 + cc.toNat

/-- `getConditionCode`. -/
def getConditionCode (s : State) (cc : BitVec 3) : Bool := s.fcsr.getLsbD (fccBit cc)

/-- `fcc_mirror_to_fccr`. -/
def fccMirrorToFccr (s : State) : State :=
  { s with fccr := ((s.fcsr >>> 23) &&& 1) ||| ((s.fcsr >>> 24) &&& 0xfe) }

/-- `fcc_mirror_from_fccr`. -/
def fccMirrorFromFccr (s : State) : State :=
  { s with
    fcsr := (s.fcsr &&& ~~~0xfe800000#32) ||| ((s.fccr &&& 1) <<< 23) |||
      ((s.fccr &&& 0xfe) <<< 24) }

/-- `setConditionCode`. -/
def setConditionCode (s : State) (v : Bool) (cc : BitVec 3) : State :=
  let bit : BitVec 32 := 1 <<< fccBit cc
  fccMirrorToFccr { s with fcsr := if v then s.fcsr ||| bit else s.fcsr &&& ~~~bit }

/-- A half of a register in the mode with paired registers: an odd register is the upper
half of the even one below it. -/
def setHalf (s : State) (r : BitVec 5) (w : BitVec 32) : State :=
  let even := r &&& ~~~1
  let old := s.cpr1 even
  s.setCpr1 even
    (if r.getLsbD 0 then (old &&& 0xffffffff) ||| (w.setWidth 64 <<< 32)
     else (old &&& 0xffffffff00000000) ||| w.setWidth 64)

/-- The half of a register in the mode with paired registers. -/
def getHalf (s : State) (r : BitVec 5) : BitVec 32 :=
  let v := s.cpr1 (r &&& ~~~1)
  if r.getLsbD 0 then lo32 (v >>> 32) else lo32 v

/-- `_mtc1`, and the write of LWC1. -/
def writeWord (s : State) (r : BitVec 5) (w : BitVec 32) : State :=
  if s.srHas srFr then s.setCpr1 r (sext32 w) else setHalf s r w

/-- `_mfc1`, and the read of SWC1. -/
def readWord (s : State) (r : BitVec 5) : BitVec 32 :=
  if s.srHas srFr then lo32 (s.cpr1 r) else getHalf s r

/-- `_cfc1`: register 0 is the read-only FIR, and an unknown number is the FCSR. -/
def readFcr (s : State) (cr : BitVec 5) : BitVec 32 :=
  if cr = 0 then 0x500
  else if cr = 25 then s.fccr
  else if cr = 26 then s.fexr
  else if cr = 28 then s.fenr
  else s.fcsr

/-- `_ctc1`. -/
def writeFcr (s : State) (cr : BitVec 5) (v : BitVec 32) : State :=
  if cr = 0 then s
  else if cr = 25 then fccMirrorFromFccr { s with fccr := v }
  else if cr = 26 then { s with fexr := v }
  else if cr = 28 then { s with fenr := v }
  else if cr = 31 then fccMirrorToFccr { s with fcsr := v }
  else { s with fcsr := v }

/-- The field `fd`. -/
def Word.fd (i : Word) : BitVec 5 := i.sa

/-- The compares and the arithmetic.  With paired registers an odd one is reserved. -/
def fpOp (fpu : Fpu) (i : Word) (s : State) : Effect :=
  if !s.srHas srFr ∧ (i.getLsbD 11 ∨ i.getLsbD 16 ∨ i.getLsbD 6) then
    .fault (takeExceptionRi s)
  else
    match decodeFpOp i with
    | .c => .next (setConditionCode s (fpu.cond i s.cpr1) (i.extractLsb' 8 3))
    | .arith => .next (s.setCpr1 i.fd (fpu.arith i s.cpr1 s.fcsr))
    | .unimpl => .fault (takeExceptionFpe s)
    | .unhandled => .stop

/-- Opcode 0x11 but for the branches, the loads and stores of its registers, which do not
check the alignment, and every other instruction that is not a jump or a branch. -/
def coproc1 (fpu : Fpu) (i : Word) (insn : Insn) (s : State) : Effect :=
  match insn with
  | .mfc1 => write s i.rt (sext32 (readWord s i.rd))
  | .dmfc1 => write s i.rt (s.cpr1 i.rd)
  | .mtc1 => .next (writeWord s i.rd (lo32 (s.gpr i.rt)))
  | .dmtc1 => .next (s.setCpr1 i.rd (s.gpr i.rt))
  | .cfc1 => write s i.rt (sext32 (readFcr s i.rd))
  | .ctc1 => .next (writeFcr s i.rd (lo32 (s.gpr i.rt)))
  | .fpOp => fpOp fpu i s
  | .lwc1 => access i .load s fun ea s => .next (writeWord s i.rt (Memory.read s.mem ea 4))
  | .swc1 =>
    access i .store s fun ea s =>
      .next { s with mem := Memory.write s.mem ea (n := 4) (readWord s i.rt) }
  | .ldc1 =>
    if !s.srHas srFr ∧ i.rt.getLsbD 0 then .fault (takeExceptionRi s)
    else access i .load s fun ea s => .next (s.setCpr1 i.rt (Memory.read s.mem ea 8))
  | .sdc1 =>
    if !s.srHas srFr ∧ i.rt.getLsbD 0 then .fault (takeExceptionRi s)
    else access i .store s fun ea s =>
      .next { s with mem := Memory.write s.mem ea (n := 8) (s.cpr1 i.rt) }
  | _ => coproc0 i insn s

end Iss

end R9999
