import R9999.Exec.Decode
import R9999.Exec.Divider

/-!
# The integer datapath

What `exec.sv` computes of an operation and its operands, with the adders, the shifter and
the multiplier that the operations share.  A multiply or a divide leaves the datapath and
writes HI and LO when its unit completes; its result is put among the outputs here.
-/

namespace R9999

namespace Exec

/-- `sign_extend32`. -/
def signExtend32 (v : BitVec 32) : BitVec 64 := v.signExtend 64

/-- The sum of `csa`'s two outputs. -/
def csaSum {w : Nat} (a b cin : BitVec w) : BitVec w :=
  let s := a ^^^ b ^^^ cin
  let cout := (a &&& b) ||| (cin &&& (a ^^^ b))
  (cout <<< 1) + s

/-- `shift_right`, which is a funnel shifter. -/
def shiftRight (isLeft isSigned : Bool) (data : BitVec 64) (distance : BitVec 6) : BitVec 64 :=
  let sb := isSigned && data.msb
  let wData : BitVec 128 :=
    if isLeft then data ++ (0 : BitVec 64) else (BitVec.ofBool sb).signExtend 64 ++ data
  let wInvDist : BitVec 7 := 64 - distance.setWidth 7
  let wDistance : BitVec 7 := if isLeft then wInvDist else distance.setWidth 7
  (wData >>> wDistance.toNat).setWidth 64

/-- `mul`, less its pipeline. -/
def mulY (isSigned is32b : Bool) (srcA srcB : BitVec 64) : BitVec 128 :=
  let wSrcA : BitVec 64 := if is32b then (srcA.setWidth 32).setWidth 64 else srcA
  let wSrcB : BitVec 64 := if is32b then (srcB.setWidth 32).setWidth 64 else srcB
  let tMul : BitVec 128 :=
    if isSigned then srcA.signExtend 128 * srcB.signExtend 128
    else wSrcA.setWidth 128 * wSrcB.setWidth 128
  if is32b then
    (tMul.extractLsb' 32 32).signExtend 64 ++ (tMul.extractLsb' 0 32).signExtend 64
  else tMul

/-- The outputs of the datapath. -/
structure Out where
  result : BitVec 64 := 0
  wrIntPrf : Bool := false
  takeBr : Bool := false
  mispredBr : Bool := false
  /-- `t_pc`, where a mispredicted branch restarts. -/
  pc : BitVec 64 := 0
  fault : Bool := false
  overflow : Bool := false
  trap : Bool := false
  unimpOp : Bool := false
  hiloResult : BitVec 128 := 0
  wrHilo : Bool := false

/-- `complete_bundle_1.faulted`. -/
def Out.faulted (o : Out) : Bool := o.mispredBr || o.unimpOp || o.fault

section Operation

variable (u : Uop) (pc srcA srcB : BitVec 64)

/-- `t_simm`. -/
def simm : BitVec 64 := u.imm.signExtend 64

/-- The immediate, zero-extended. -/
def zimm : BitVec 64 := u.imm.setWidth 64

/-- The operations that the 32-bit adder subtracts for. -/
def subtracts32 : Bool := u.op = .subu || u.op = .sub || u.op = .subchk

/-- The operations that the 32-bit adder takes the immediate for. -/
def immediate32 : Bool := u.op = .addiu || u.op = .addi || u.op = .addichk

/-- `w_ovf_srcB`. -/
def ovfSrcB32 : BitVec 32 := if immediate32 u then u.imm.signExtend 32 else srcB.setWidth 32

/-- `w_add32`. -/
def add32 : BitVec 32 :=
  csaSum (srcA.setWidth 32) (if subtracts32 u then ~~~(srcB.setWidth 32) else ovfSrcB32 u srcB)
    (if subtracts32 u then 1 else 0)

/-- `w_add32_overflow`. -/
def add32Overflow : Bool :=
  (add32 u srcA srcB).msb != (ovfSrcB32 u srcB).msb &&
    (srcA.setWidth 32).msb == (ovfSrcB32 u srcB).msb

/-- `w_sub32_overflow`. -/
def sub32Overflow : Bool :=
  (add32 u srcA srcB).msb != (srcA.setWidth 32).msb &&
    (srcA.setWidth 32).msb != (ovfSrcB32 u srcB).msb

/-- The operations that the 64-bit adder subtracts for. -/
def subtracts64 : Bool := u.op = .dsubu || u.op = .dsub || u.op = .dsubchk

/-- The operations that the 64-bit adder takes the immediate for. -/
def immediate64 : Bool := u.op = .daddiu || u.op = .daddi || u.op = .daddichk

/-- `w_ovf64_srcB`. -/
def ovfSrcB64 : BitVec 64 := if immediate64 u then simm u else srcB

/-- `w_add64`. -/
def add64 : BitVec 64 :=
  csaSum srcA (if subtracts64 u then ~~~srcB else ovfSrcB64 u srcB)
    (if subtracts64 u then 1 else 0)

/-- `w_add64_overflow`. -/
def add64Overflow : Bool :=
  (add64 u srcA srcB).msb != (ovfSrcB64 u srcB).msb && srcA.msb == (ovfSrcB64 u srcB).msb

/-- `w_sub64_overflow`. -/
def sub64Overflow : Bool :=
  (add64 u srcA srcB).msb != srcA.msb && srcA.msb != (ovfSrcB64 u srcB).msb

/-- `w_shifter_out`, for the 32-bit shifts. -/
def shift32 (isLeft isSigned : Bool) (amt : BitVec 5) : BitVec 64 :=
  let src : BitVec 64 :=
    if isSigned then (srcA.setWidth 32).signExtend 64 else (srcA.setWidth 32).setWidth 64
  signExtend32 ((shiftRight isLeft isSigned src (amt.setWidth 6)).setWidth 32)

/-- The outputs that an operation does not set. -/
def Out.quiet : Out := { pc := pc + 4 }

/-- An operation with a result. -/
def Out.value (v : BitVec 64) : Out := { Out.quiet pc with result := v, wrIntPrf := true }

/-- A check for overflow, without a result. -/
def Out.check (overflow : Bool) : Out := { Out.quiet pc with overflow, fault := overflow }

/-- An operation with a result that may overflow. -/
def Out.checked (overflow : Bool) (v : BitVec 64) : Out :=
  { Out.value pc v with overflow, fault := overflow }

/-- A trap. -/
def Out.trapping (trap : Bool) : Out := { Out.quiet pc with trap, fault := trap }

/-- A write of HI and LO. -/
def Out.hilo (v : BitVec 128) : Out := { Out.quiet pc with hiloResult := v, wrHilo := true }

/-- A branch.  The restart is at the target or after the slot. -/
def Out.branch (takeBr : Bool) : Out :=
  { Out.quiet pc with
    result := srcA
    takeBr
    mispredBr := u.brPred != takeBr
    pc := if takeBr then pc + 4 + (simm u <<< 2) else pc + 8 }

/-- A likely branch restarts whenever it is not taken. -/
def Out.likely (takeBr : Bool) : Out :=
  { Out.branch u pc srcA takeBr with mispredBr := u.brPred != takeBr || !takeBr }

/-- The return address as the result. -/
def Out.link (o : Out) : Out := { o with result := pc + 8, wrIntPrf := true }

/-- A jump to a register. -/
def Out.jumpReg : Out :=
  { Out.quiet pc with
    takeBr := true
    mispredBr := srcA != (u.jmpImm ++ u.imm : BitVec (48 + 16))
    pc := srcA }

/-- The operand that a trap compares with. -/
def trapB : BitVec 64 := if u.srcBValid then srcB else simm u

/-- `1` or `0`. -/
def oneIf (b : Bool) : BitVec 64 := if b then 1 else 0

/-- The case analysis of `exec.sv` on the operation. -/
def exec (hilo : BitVec 128) : Out :=
  let amt : BitVec 5 := u.imm.extractLsb' 0 5
  let amt64 (hi : BitVec 1) : BitVec 6 := hi ++ amt
  match u.op with
  | .sll => .value pc (shift32 srcA true false amt)
  | .sra => .value pc (shift32 srcA false true amt)
  | .srl => .value pc (shift32 srcA false false amt)
  | .srav => .value pc (shift32 srcA false true (srcB.setWidth 5))
  | .sllv => .value pc (shift32 srcA true false (srcB.setWidth 5))
  | .srlv => .value pc (shift32 srcA false false (srcB.setWidth 5))
  | .dsll => .value pc (shiftRight true false srcA (amt64 0))
  | .dsll32 => .value pc (shiftRight true false srcA (amt64 1))
  | .dsrl => .value pc (shiftRight false false srcA (amt64 0))
  | .dsrl32 => .value pc (shiftRight false false srcA (amt64 1))
  | .dsra => .value pc (shiftRight false true srcA (amt64 0))
  | .dsra32 => .value pc (shiftRight false true srcA (amt64 1))
  | .dsllv => .value pc (shiftRight true false srcA (srcB.setWidth 6))
  | .dsrlv => .value pc (shiftRight false false srcA (srcB.setWidth 6))
  | .dsrav => .value pc (shiftRight false true srcA (srcB.setWidth 6))
  | .mtlo => .hilo pc (hilo.extractLsb' 64 64 ++ srcA)
  | .mthi => .hilo pc (srcA ++ hilo.extractLsb' 0 64)
  | .mflo => .value pc (hilo.extractLsb' 0 64)
  | .mfhi => .value pc (hilo.extractLsb' 64 64)
  | .add | .addi =>
    .checked pc (add32Overflow u srcA srcB) (signExtend32 (add32 u srcA srcB))
  | .addu | .subu | .addiu => .value pc (signExtend32 (add32 u srcA srcB))
  | .dadd | .daddi => .checked pc (add64Overflow u srcA srcB) (add64 u srcA srcB)
  | .daddu | .dsubu | .daddiu => .value pc (add64 u srcA srcB)
  | .dsub => .checked pc (sub64Overflow u srcA srcB) (add64 u srcA srcB)
  | .mult => .hilo pc (mulY true true srcA srcB)
  | .multu => .hilo pc (mulY false true srcA srcB)
  | .dmult => .hilo pc (mulY true false srcA srcB)
  | .dmultu => .hilo pc (mulY false false srcA srcB)
  | .div => .hilo pc (divide srcA srcB true true)
  | .divu => .hilo pc (divide srcA srcB true false)
  | .ddiv => .hilo pc (divide srcA srcB false true)
  | .ddivu => .hilo pc (divide srcA srcB false false)
  | .sub => .checked pc (sub32Overflow u srcA srcB) (signExtend32 (add32 u srcA srcB))
  | .neg => .value pc (signExtend32 (0 - srcA.setWidth 32))
  | .negt => .checked pc (srcA.setWidth 32 == 0x80000000) (signExtend32 (0 - srcA.setWidth 32))
  | .and => .value pc (srcA &&& srcB)
  | .mov => .value pc srcA
  | .or => .value pc (srcA ||| srcB)
  | .xor => .value pc (srcA ^^^ srcB)
  | .nor => .value pc (~~~(srcA ||| srcB))
  | .not => .value pc (~~~srcA)
  | .addchk | .addichk => .check pc (add32Overflow u srcA srcB)
  | .subchk => .check pc (sub32Overflow u srcA srcB)
  | .daddchk | .daddichk => .check pc (add64Overflow u srcA srcB)
  | .dsubchk => .check pc (sub64Overflow u srcA srcB)
  | .slt => .value pc (oneIf (srcB.slt srcA))
  | .sltu => .value pc (oneIf (srcB.ult srcA))
  | .moviu => .value pc (zimm u)
  | .snez => .value pc (oneIf (srcA != 0))
  | .sgtz => .value pc (oneIf (BitVec.slt 0 srcA))
  | .sltz => .value pc (oneIf (srcA.slt 0))
  | .beq => .branch u pc srcA (srcA == srcB)
  | .beql => .likely u pc srcA (srcA == srcB)
  | .bne => .branch u pc srcA (srcA != srcB)
  | .bnel => .likely u pc srcA (srcA != srcB)
  | .beqz => .branch u pc srcA (srcA == 0)
  | .bnez => .branch u pc srcA (srcA != 0)
  | .beqzl => .likely u pc srcA (srcA == 0)
  | .bnezl => .likely u pc srcA (srcA != 0)
  | .bra => .branch u pc 0 true
  | .bgez => .branch u pc srcA (!srcA.msb)
  | .bltz => .branch u pc srcA (srcA.slt 0)
  | .blez => .branch u pc srcA (srcA.sle 0)
  | .bgtz => .branch u pc srcA (BitVec.slt 0 srcA)
  | .blezl => .likely u pc srcA (srcA.slt 0 || srcA == 0)
  | .bltzl => .likely u pc srcA (srcA.slt 0)
  | .bgtzl => .likely u pc srcA (BitVec.slt 0 srcA)
  | .bgezl => .likely u pc 0 (BitVec.sle 0 srcA)
  | .bgezal => (Out.branch u pc srcA (!srcA.msb)).link pc
  | .bal => (Out.branch u pc srcA true).link pc
  | .bltzal => (Out.branch u pc srcA (srcA.slt 0)).link pc
  | .bltzall => (Out.likely u pc srcA (srcA.slt 0)).link pc
  | .bgezall => (Out.likely u pc srcA (!srcA.msb)).link pc
  | .jal =>
    Out.link pc
      { Out.quiet pc with
        takeBr := true
        mispredBr := !u.brPred
        pc := (pc + 4).extractLsb' 28 36 ++
          (u.jmpImm.extractLsb' 0 10 ++ u.imm ++ (0 : BitVec 2) : BitVec 28) }
  | .jr => .jumpReg u pc srcA
  | .jalr => (Out.jumpReg u pc srcA).link pc
  | .andi => .value pc (srcA &&& zimm u)
  | .ori => .value pc (srcA ||| zimm u)
  | .xori => .value pc (srcA ^^^ zimm u)
  | .lui => .value pc (signExtend32 (u.imm ++ (0 : BitVec 16)))
  | .movi => .value pc (signExtend32 ((simm u).setWidth 32))
  | .slti => .value pc (oneIf (srcA.slt (simm u)))
  | .sltiu => .value pc (oneIf (srcA.ult (simm u)))
  | .teq => .trapping pc (srcA == trapB u srcB)
  | .tne => .trapping pc (srcA != trapB u srcB)
  | .teqz => .trapping pc (srcA == 0)
  | .tnez => .trapping pc (srcA != 0)
  | .tge => .trapping pc ((trapB u srcB).sle srcA)
  | .tgeu => .trapping pc ((trapB u srcB).ule srcA)
  | .tlt => .trapping pc (srcA.slt (trapB u srcB))
  | .tltu => .trapping pc (srcA.ult (trapB u srcB))
  -- NOP and J do not come here, and the others have no case
  | .nop | .j | .ii => { Out.quiet pc with unimpOp := true }

end Operation

end Exec

end R9999
