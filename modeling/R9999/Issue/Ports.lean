import R9999.Exec.Datapath
import R9999.Exec.UniDivider
import R9999.Fpu.Convert
import R9999.Fpu.Unit
import R9999.Hw.Reserve

/-!
# The completion ports

`exec.sv`, from the issue of an operation to its completion: the ALU, the multiplier and the
integer divide share `complete_bundle_1` and the write port of the HILO file; the
floating-point unit, the conversions and the floating-point divide share `complete_bundle_2`
and the write port of the first bank of the floating-point registers.  Two vectors of slots
(`r_wb_bitvec`, `r_fp_wb_bitvec`) and one of the starts of the floating-point unit
(`r_fp_st_bitvec`) say when an operation may be issued.

This is the configuration with MIPS IV (`ENABLE_MIPS4`); without it the operations that it adds
do not come.  Which operation is the oldest that is ready, its operands, and what the ALU makes
of them are inputs, and so are the flushes.
-/

open Hw (RoundMode)

namespace R9999

namespace Issue

open Exec (UniDivider UniIn IntReq FpReq mulY)
open Fpu (FpuOp FpuUnit FpuIn DivOp Fflags Out)

/-! ## The operations -/

/-- The units of the integer side.  An ALU operation may write the HILO file, or the
condition codes (`CTC1`). -/
inductive IntKind where
  | alu (wrHilo wrFcsr : Bool)
  | mult (isSigned is32b : Bool)
  | div (isSigned is32b : Bool)
  deriving DecidableEq, Repr

/-- `is_mult`. -/
def IntKind.isMult : IntKind → Bool
  | mult .. => true
  | _ => false

/-- `is_div`. -/
def IntKind.isDiv : IntKind → Bool
  | div .. => true
  | _ => false

/-- `t_alu_valid`, which every other operation has. -/
def IntKind.isAlu : IntKind → Bool
  | alu .. => true
  | _ => false

/-- An integer operation, with its operands.  `hilo_dst` names a HILO register or a register of
condition codes. -/
structure IntUop (R H F X : Type*) where
  kind : IntKind
  robPtr : R
  hiloDst : H
  fcrDst : F
  srcA : BitVec 64
  srcB : BitVec 64
  hiloResult : BitVec 128
  /-- What the ALU puts into the bundle beside the pointer. -/
  rest : X

/-- The operations of the single-cycle path: `w_iss_is_sc`. -/
inductive ScOp where
  | f2i (srcDbl dstLong trunc : Bool)
  | i2f (srcLong dstDbl : Bool)
  | f2f (toDouble : Bool)
  | abs (dbl : Bool)
  | neg (dbl : Bool)
  | mov (dbl : Bool)
  | fcmov
  deriving DecidableEq, Repr

/-- The units of the floating-point side. -/
inductive FpKind where
  | unit (op : FpuOp)
  | sc (op : ScOp)
  | ds (op : DivOp)
  deriving DecidableEq, Repr

/-- `w_head_is_sc`. -/
def FpKind.isSc : FpKind → Bool
  | sc _ => true
  | _ => false

/-- `w_head_is_ds`. -/
def FpKind.isDs : FpKind → Bool
  | ds _ => true
  | _ => false

/-- `w_head_is_madd`. -/
def FpKind.isMadd : FpKind → Bool
  | unit op => op.isMadd
  | _ => false

/-- `w_head_wb_dist`: from the issue to the writeback. -/
def FpKind.wbDist (k : FpKind) : ℕ := if k.isSc then 2 else if k.isMadd then 9 else 5

/-- A floating-point operation, with its operands. -/
structure FpUop (R P F : Type*) where
  kind : FpKind
  robPtr : R
  dst : P
  hiloSrc : F
  hiloDst : F
  imm : BitVec 16
  srcA : BitVec 64
  srcB : BitVec 64
  srcC : BitVec 64
  /-- `r_prf_zero` of `srcC`. -/
  rtZero : Bool

/-- A rounding mode from its two bits. -/
def roundMode (b : BitVec 2) : RoundMode :=
  match b.toNat with
  | 0 => .nearest
  | 1 => .zero
  | 2 => .up
  | _ => .down

/-- What the single-cycle path computes; `rm` is that of the control register. -/
def ScOp.out {R P F : Type*} (op : ScOp) (u : FpUop R P F) (fcr : BitVec 8) (rm : RoundMode) :
    Out :=
  let plain (y : BitVec 64) : Out := ⟨y, false, ⟨false, false, false, false, false⟩⟩
  match op with
  | .f2i srcDbl dstLong trunc =>
    Fpu.f2i srcDbl dstLong
      (if trunc then .zero
        else if u.imm.getLsbD 2 then rm else roundMode (u.imm.extractLsb' 0 2)) u.srcA
  | .i2f srcLong dstDbl => Fpu.i2f srcLong dstDbl rm u.srcA
  | .f2f toDouble => Fpu.f2f rm u.srcA toDouble
  | .abs dbl =>
    plain (if dbl then 0#1 ++ u.srcA.extractLsb' 0 63 else 0#33 ++ u.srcA.extractLsb' 0 31)
  | .neg dbl => plain (Fpu.flipSign dbl u.srcA)
  | .mov dbl => plain (if dbl then u.srcA else 0#32 ++ u.srcA.extractLsb' 0 32)
  | .fcmov =>
    let cond :=
      if u.imm.extractLsb' 4 2 = 0#2 then
        fcr.getLsbD (u.imm.extractLsb' 0 3).toNat == u.imm.getLsbD 3
      else if u.imm.extractLsb' 4 2 = 2#2 then !u.rtZero
      else u.rtZero
    plain (if cond then u.srcA else u.srcB)

/-- What goes into the divider for a floating-point operation: a reciprocal divides one. -/
def FpUop.fdivReq {R P F : Type*} (u : FpUop R P F) (op : DivOp) (rm : RoundMode) : FpReq R P :=
  { req :=
      if op = .spRecip || op = .dpRecip then ⟨op, Fpu.one op.fmt, u.srcA, rm⟩
      else ⟨op, u.srcA, u.srcB, rm⟩
    robPtr := u.robPtr, dstPtr := u.dst }

/-- What goes into the floating-point unit. -/
def FpUop.fpuIn {R P F : Type*} (u : FpUop R P F) (start : Bool) (fcr : BitVec 8)
    (rm : RoundMode) : FpuIn R P F :=
  { op := match u.kind with | .unit op => op | _ => .unimpl
    start, srcA := u.srcA, srcB := u.srcB, srcC := u.srcC, srcFcr := fcr, rm
    robPtr := u.robPtr, dstPtr := u.dst, fcrPtr := u.hiloDst
    fcrSel := u.imm.extractLsb' 0 3, cmpCond := u.imm.extractLsb' 3 4 }

/-! ## The machine -/

/-- The inputs of one cycle. -/
structure PortsIn (R H P F X : Type*) where
  /-- There is an operation whose operands are ready; the issue logic asks only for its slot. -/
  intRdy : Bool
  intPick : IntUop R H F X
  /-- The queue has a head, and its operands are ready. -/
  fpRdy : Bool
  fpUq : FpUop R P F
  /-- `ds_done`, which is `t_flash_clear`. -/
  dsDone : Bool
  /-- The rounding mode and the enabled exceptions of the control register. -/
  rm : RoundMode
  enable : Fflags

/-- The registers of one stage of the multiplier: `r_complete`, which is `r_hilo_val`, the
pointers and the product. -/
structure MulStage (R H : Type*) where
  complete : Bool
  robPtr : R
  hiloPtr : H
  y : BitVec 128

/-- `complete_bundle_1`: with the result of the ALU, or of none. -/
structure Bundle1 (R X : Type*) where
  robPtr : R
  rest : Option X

/-- `complete_bundle_2`. -/
structure Bundle2 (R : Type*) where
  robPtr : R
  faulted : Bool
  /-- `data` and `fp_flags`. -/
  out : Out

/-- The registers. -/
structure Ports (R H P F X : Type*) where
  startInt : Bool
  intUop : IntUop R H F X
  wbBitvec : BitVec 67
  m0 : MulStage R H
  m1 : MulStage R H
  m2 : MulStage R H
  m3 : MulStage R H
  div : UniDivider R H P
  hiloPrf : H → BitVec 128
  completeValid1 : Bool
  bundle1 : Bundle1 R X
  fpWbBitvec : BitVec 10
  fpStBitvec : BitVec 6
  fpIssValid : Bool
  fpIssUop : FpUop R P F
  fpIssFcr : BitVec 8
  fpu : FpuUnit R P F
  cvtValid : Bool
  cvtRob : R
  cvtDst : P
  cvtOut : Out
  fcrPrf : F → BitVec 8
  fpPrf : P → BitVec 64
  completeValid2 : Bool
  bundle2 : Bundle2 R

namespace Ports

variable {R H P F X : Type*} (m : Ports R H P F X) (i : PortsIn R H P F X)

/-- `t_start_mul`. -/
def startMul : Bool := m.startInt && m.intUop.kind.isMult && !i.dsDone

/-- `t_start_div32` and `t_start_div64`. -/
def startDiv : Bool := m.startInt && m.intUop.kind.isDiv && !i.dsDone

/-- `t_mul_complete`, which is `t_hilo_prf_ptr_val_out`. -/
def mulComplete : Bool := m.m3.complete

/-- `r_start_int && t_alu_valid`. -/
def aluComplete : Bool := m.startInt && m.intUop.kind.isAlu

/-- `r_start_int && t_wr_hilo`. -/
def aluWrHilo : Bool :=
  m.startInt && match m.intUop.kind with
    | .alu wrHilo _ => wrHilo
    | _ => false

/-- `r_start_int & t_wr_fcsr`. -/
def aluWrFcsr : Bool :=
  m.startInt && match m.intUop.kind with
    | .alu _ wrFcsr => wrFcsr
    | _ => false

/-- `t_fdiv_wb_used`. -/
def fdivWbUsed : Bool := m.fpu.val || m.fpu.cmpVal || m.cvtValid

/-- What goes into the divider for the integer divide at the start of its execution. -/
def divReq : IntReq R H :=
  { srcA := m.intUop.srcA, srcB := m.intUop.srcB
    is32b := match m.intUop.kind with | .div _ is32b => is32b | _ => false
    isSignedDiv := match m.intUop.kind with | .div isSigned _ => isSigned | _ => false
    robPtr := m.intUop.robPtr, hiloPrfPtr := m.intUop.hiloDst }

/-- `t_fdiv_start`, with its operation. -/
def fdivStart : Option (FpReq R P) :=
  match m.fpIssUop.kind with
  | .ds op => if m.fpIssValid then some (m.fpIssUop.fdivReq op i.rm) else none
  | _ => none

/-- The inputs of the divider. -/
def divIn : UniIn R H P :=
  { start := if m.startDiv i then some m.divReq else none
    fpStart := m.fdivStart i
    flush := i.dsDone
    wbSlotUsed := m.mulComplete || m.startInt
    fpWbSlotUsed := m.fdivWbUsed }

/-- `t_div_ready`, and `w_fdiv_ready`. -/
def divReady : Bool := m.div.ready (m.divIn i)

/-- `t_div_complete`. -/
def divComplete : Bool := m.div.complete (m.divIn i)

/-- `w_fdiv_complete`. -/
def fdivComplete : Bool := m.div.fpComplete (m.divIn i)

/-- `t_pop_fp_uq`. -/
def popFpUq : Bool :=
  let k := i.fpUq.kind
  i.fpRdy && !i.dsDone &&
    (if k.isDs then m.divReady i else !m.fpWbBitvec.getLsbD k.wbDist) &&
    !(!k.isSc && !k.isDs && m.fpStBitvec.getLsbD 1)

/-- `t_fdiv_pop`. -/
def fdivPop : Bool := m.popFpUq i && i.fpUq.kind.isDs

/-- The slot that `t_alu_entry_rdy` and `t_uq_bypass` ask for. -/
def intSlot : Bool :=
  if i.intPick.kind.isDiv then m.divReady i && !m.fdivPop i
  else if i.intPick.kind.isMult then !m.wbBitvec.getLsbD 5
  else !m.wbBitvec.getLsbD 1

/-- An integer operation is issued. -/
def pickInt : Bool := i.intRdy && m.intSlot i && !i.dsDone

/-- `start` of the floating-point unit. -/
def fpuStart : Bool := m.fpIssValid && !m.fpIssUop.kind.isSc && !m.fpIssUop.kind.isDs

/-- The inputs of the floating-point unit. -/
def fpuIn : FpuIn R P F := m.fpIssUop.fpuIn m.fpuStart m.fpIssFcr i.rm

/-- What completes on the second port: the mux of `complete_bundle_2`. -/
def fpCmpl : R × Out :=
  if m.fdivComplete i then (m.div.robPtr, m.div.fpOut)
  else if m.fpu.val || m.fpu.cmpVal then (m.fpu.r0.rob, m.fpu.out)
  else (m.cvtRob, m.cvtOut)

/-- `w_fp_fault`: what has no datapath, or an enabled exception. -/
def fpFault (o : Out) (enable : Fflags) : Bool :=
  o.denorm || (o.fflags.v && enable.v) || (o.fflags.z && enable.z) || (o.fflags.o && enable.o) ||
    (o.fflags.u && enable.u) || (o.fflags.i && enable.i)

/-- A clock cycle. -/
def next [DecidableEq H] [DecidableEq P] [DecidableEq F] : Ports R H P F X :=
  { startInt := m.pickInt i
    intUop := i.intPick
    wbBitvec :=
      Hw.reserve m.wbBitvec (if m.startDiv i then some 67 else if m.startMul i then some 4 else none)
    m0 :=
      { complete := m.startMul i, robPtr := m.intUop.robPtr, hiloPtr := m.intUop.hiloDst
        y :=
          match m.intUop.kind with
          | .mult isSigned is32b => mulY isSigned is32b m.intUop.srcA m.intUop.srcB
          | _ => mulY true false m.intUop.srcA m.intUop.srcB }
    m1 := m.m0, m2 := m.m1, m3 := m.m2
    div := m.div.next (m.divIn i)
    hiloPrf :=
      if m.aluWrHilo then Function.update m.hiloPrf m.intUop.hiloDst m.intUop.hiloResult
      else if m.mulComplete then Function.update m.hiloPrf m.m3.hiloPtr m.m3.y
      else if m.divComplete i then Function.update m.hiloPrf m.div.hiloPrfPtr m.div.y
      else m.hiloPrf
    completeValid1 := m.aluComplete || m.mulComplete || m.divComplete i
    bundle1 :=
      if m.mulComplete || m.divComplete i then
        ⟨if m.mulComplete then m.m3.robPtr else m.div.robPtr, none⟩
      else ⟨m.intUop.robPtr, some m.intUop.rest⟩
    fpWbBitvec := Hw.reserve m.fpWbBitvec (if m.popFpUq i then some i.fpUq.kind.wbDist else none)
    fpStBitvec :=
      Hw.reserve m.fpStBitvec (if m.popFpUq i && i.fpUq.kind.isMadd then some 5 else none)
    fpIssValid := m.popFpUq i
    fpIssUop := i.fpUq
    fpIssFcr := m.fcrPrf i.fpUq.hiloSrc
    fpu := m.fpu.next (m.fpuIn i)
    cvtValid := m.fpIssValid && m.fpIssUop.kind.isSc
    cvtRob := m.fpIssUop.robPtr
    cvtDst := m.fpIssUop.dst
    cvtOut :=
      match m.fpIssUop.kind with
      | .sc op => op.out m.fpIssUop m.fpIssFcr i.rm
      | _ => Fpu.i2f false false i.rm m.fpIssUop.srcA
    fcrPrf :=
      if m.fpu.cmpVal then Function.update m.fcrPrf m.fpu.r0.fcr (m.fpu.out.y.setWidth 8)
      else if m.aluWrFcsr then
        Function.update m.fcrPrf m.intUop.fcrDst
          (m.intUop.srcA.extractLsb' 25 7 ++ m.intUop.srcA.extractLsb' 23 1)
      else m.fcrPrf
    fpPrf :=
      if m.fdivComplete i then Function.update m.fpPrf m.div.fpDst m.div.fpY
      else if m.fpu.val then Function.update m.fpPrf m.fpu.r0.ptr m.fpu.out.y
      else if m.cvtValid then Function.update m.fpPrf m.cvtDst m.cvtOut.y
      else m.fpPrf
    completeValid2 := m.fdivWbUsed || m.fdivComplete i
    bundle2 := ⟨(m.fpCmpl i).1, fpFault (m.fpCmpl i).2 i.enable, (m.fpCmpl i).2⟩ }

/-- What a reset sets. -/
def reset : Ports R H P F X :=
  { m with
    startInt := false
    wbBitvec := 0
    m0 := { m.m0 with complete := false }, m1 := { m.m1 with complete := false }
    m2 := { m.m2 with complete := false }, m3 := { m.m3 with complete := false }
    div := { m.div with state := .idle }
    completeValid1 := false
    fpWbBitvec := 0
    fpStBitvec := 0
    fpIssValid := false
    fpu := m.fpu.cleared
    cvtValid := false
    fcrPrf := fun _ => 0
    completeValid2 := false }

/-- The machine some cycles after a reset. -/
def run [DecidableEq H] [DecidableEq P] [DecidableEq F] (ins : ℕ → PortsIn R H P F X) :
    ℕ → Ports R H P F X
  | 0 => m.reset
  | t + 1 => (run ins t).next (ins t)

end Ports

end Issue

end R9999
