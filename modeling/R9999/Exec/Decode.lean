import R9999.Iss.Insn

/-!
# Decoding for the integer unit

`decode_mips`, for the words of opcode 0 other than SYSCALL and BREAK, of opcode 1, and of
the opcodes 2 to 15 and 20 to 25, in the MIPS III build and with nothing injected in the
word's place.  An operation that has register zero among its operands is often rewritten to
one that does not read it.

The fields that only the queues use are left out.  A source that is not marked valid is not
renamed, and the operation then sees whatever the physical register of that number holds.
-/

namespace R9999

namespace Exec

open Iss (Word)

/-- `opcode_t`, as far as these words are decoded to it. -/
inductive Op where
  | sll | srl | sra | sllv | srlv | srav
  | dsll | dsrl | dsra | dsll32 | dsrl32 | dsra32 | dsllv | dsrlv | dsrav
  | jr | jalr | nop | mfhi | mthi | mflo | mtlo
  | mult | multu | div | divu | dmult | dmultu | ddiv | ddivu
  | add | addu | sub | subu | and | or | xor | nor | slt | sltu | dadd | daddu | dsub | dsubu
  /-- The additions and subtractions without a destination. -/
  | addchk | addichk | subchk | daddchk | daddichk | dsubchk
  /-- What the operations with register zero are rewritten to. -/
  | mov | movi | moviu | not | neg | negt | snez | sgtz | sltz | teqz | tnez
  | beqz | bnez | beqzl | bnezl | bra | bal
  | tge | tgeu | tlt | tltu | teq | tne
  | bltz | bgez | bltzl | bgezl | bltzal | bgezal | bltzall | bgezall
  | j | jal | beq | bne | blez | bgtz | beql | bnel | blezl | bgtzl
  | addi | addiu | slti | sltiu | andi | ori | xori | lui | daddi | daddiu
  /-- Reserved. -/
  | ii
  deriving DecidableEq, Repr

/-- `uop_t`. -/
structure Uop where
  op : Op := .ii
  srcA : BitVec 5 := 0
  srcAValid : Bool := false
  srcB : BitVec 5 := 0
  srcBValid : Bool := false
  dst : BitVec 5 := 0
  dstValid : Bool := false
  hiloSrcValid : Bool := false
  hiloDstValid : Bool := false
  hasDelaySlot : Bool := false
  hasNullifyingDelaySlot : Bool := false
  imm : BitVec 16 := 0
  jmpImm : BitVec 48 := 0
  brPred : Bool := false

/-- What the fetch predicts of an instruction. -/
structure Pred where
  insnPred : Bool
  insnPredTarget : BitVec 64

/-- `insn[15:0]`. -/
abbrev immOf (i : Word) : BitVec 16 := i.extractLsb' 0 16

/-- `shamt`, as an immediate. -/
abbrev shamt (i : Word) : BitVec 16 := i.sa.setWidth 16

section Families

variable (op : Op) (i : Word)

/-- The 32-bit shifts by an immediate. -/
def shiftImm : Uop where
  srcA := i.rt
  srcAValid := i.rd != 0#5 && i.rt != 0#5
  dst := i.rd
  dstValid := i.rd != 0#5
  op := if i.rd = 0#5 then .nop else if i.rt = 0#5 then .movi else op
  imm := if i.rt = 0#5 then 0 else shamt i

/-- Two sources and a destination, without which the operation is `chk`. -/
def twoReg (chk : Op) (a b d : BitVec 5) : Uop where
  srcA := a
  srcAValid := true
  srcB := b
  srcBValid := true
  dst := d
  dstValid := d != 0#5
  op := if d = 0#5 then chk else op

/-- One source and a destination. -/
def oneReg (chk : Op) (a d : BitVec 5) (imm : BitVec 16) : Uop where
  srcA := a
  srcAValid := true
  dst := d
  dstValid := d != 0#5
  op := if d = 0#5 then chk else op
  imm

/-- The 64-bit shifts by an immediate. -/
def dshiftImm : Uop := oneReg op .nop i.rt i.rd (shamt i)

/-- The operations that have `rt` as their first source. -/
def rtRs (chk : Op) : Uop := twoReg op chk i.rt i.rs i.rd

/-- The operations that have `rs` as their first source. -/
def rsRt (chk : Op) : Uop := twoReg op chk i.rs i.rt i.rd

/-- No source: the immediate is the result. -/
def constant (d : BitVec 5) (imm : BitVec 16) : Uop where
  dst := d
  dstValid := d != 0#5
  op := if d = 0#5 then .nop else .movi
  imm

/-- The one operand that is not register zero. -/
def single : Uop := oneReg op .nop (if i.rs = 0#5 then i.rt else i.rs) i.rd 0

/-- The operations on two registers of which either may be register zero: `both` has the
result for two of them, and `one` is the operation for one. -/
def foldZero (both : BitVec 16) (one : Op) : Uop :=
  if i.rs = 0#5 ∧ i.rt = 0#5 then constant i.rd both
  else if i.rs = 0#5 ∨ i.rt = 0#5 then single one i
  else rtRs op i .nop

/-- MFHI and MFLO. -/
def fromHilo : Uop where
  op := if i.rd = 0#5 then .nop else op
  dst := i.rd
  dstValid := i.rd != 0#5
  hiloSrcValid := true

/-- MTHI and MTLO. -/
def toHilo : Uop where
  op
  srcA := i.rs
  srcAValid := true
  hiloSrcValid := true
  hiloDstValid := true

/-- The multiplies and divides. -/
def mulDiv : Uop where
  srcA := i.rs
  srcAValid := true
  srcB := i.rt
  srcBValid := true
  hiloDstValid := true
  op

/-- The traps on two registers. -/
def trapRegs : Uop where
  op
  srcA := i.rs
  srcAValid := true
  srcB := i.rt
  srcBValid := true

/-- The traps on one register. -/
def trapZero (src : BitVec 5) : Uop where
  op
  srcA := src
  srcAValid := true

/-- TEQ and TNE. -/
def trapEq (zero : Op) : Uop where
  op := if (i.rs == 0#5) ^^ (i.rt == 0#5) then zero else op
  srcA := if i.rt = 0#5 then i.rs else i.rt
  srcAValid := true
  srcB := i.rs
  srcBValid := !((i.rs == 0#5) ^^ (i.rt == 0#5))

/-- The operations with an immediate. -/
def immOp (chk : Op) : Uop := oneReg op chk i.rs i.rt (immOf i)

/-- The logical operations with an immediate. -/
def logicImm (zero : Op) (imm : BitVec 16) : Uop where
  op := if i.rt = 0#5 then .nop else if i.rs = 0#5 then zero else op
  srcAValid := i.rs != 0#5
  srcA := i.rs
  dstValid := i.rt != 0#5
  dst := i.rt
  imm

/-- The branches on one register. -/
def branch1 (p : Pred) : Uop where
  op
  srcA := i.rs
  srcAValid := true
  hasDelaySlot := true
  imm := immOf i
  brPred := p.insnPred

/-- The likely branches on one register. -/
def likely1 (p : Pred) : Uop := { branch1 op i p with hasNullifyingDelaySlot := true }

/-- The branches that write the return address. -/
def linking (u : Uop) : Uop := { u with dstValid := true, dst := 31, srcB := 31 }

/-- The likely branches on two registers. -/
def likely2 (zero : Op) (p : Pred) : Uop where
  op := if (i.rs == 0#5) ^^ (i.rt == 0#5) then zero else op
  srcA := if i.rs = 0#5 then i.rt else i.rs
  srcAValid := true
  srcB := i.rt
  srcBValid := !((i.rs == 0#5) ^^ (i.rt == 0#5))
  hasDelaySlot := true
  hasNullifyingDelaySlot := true
  imm := immOf i
  brPred := p.insnPred

/-- The jumps to a register carry the predicted target as their immediate. -/
def jumpReg (p : Pred) : Uop where
  op
  srcA := i.rs
  srcAValid := true
  hasDelaySlot := true
  imm := p.insnPredTarget.extractLsb' 0 16
  jmpImm := p.insnPredTarget.extractLsb' 16 48

/-- An operation that needs 64-bit operations. -/
def gated (in64bMode : Bool) (u : Uop) : Uop := if in64bMode then u else {}

end Families

/-- SUB. -/
def decodeSub (i : Word) : Uop :=
  if i.rd = 0#5 then
    { srcA := i.rs, srcAValid := true, srcB := i.rt, srcBValid := true, op := .subchk }
  else
    { srcA := if i.rs = 0#5 then i.rt else i.rs
      srcAValid := !(i.rs == 0#5 && i.rt == 0#5)
      srcB := i.rt
      srcBValid := i.rs != 0#5 && i.rt != 0#5
      dst := i.rd
      dstValid := true
      op :=
        if i.rs = 0#5 ∧ i.rt = 0#5 then .movi
        else if i.rs = 0#5 then .negt
        else if i.rt = 0#5 then .sll
        else .sub }

/-- SUBU. -/
def decodeSubu (i : Word) : Uop where
  srcA := if i.rs = 0#5 then i.rt else i.rs
  srcAValid := !(i.rs == 0#5 && i.rt == 0#5)
  srcB := i.rt
  srcBValid := i.rs != 0#5 && i.rt != 0#5
  dst := i.rd
  dstValid := i.rd != 0#5
  op :=
    if i.rd = 0#5 then .nop
    else if i.rs = 0#5 ∧ i.rt = 0#5 then .movi
    else if i.rs = 0#5 then .neg
    else if i.rt = 0#5 then .sll
    else .subu

/-- AND. -/
def decodeAnd (i : Word) : Uop :=
  if i.rs = 0#5 ∨ i.rt = 0#5 then constant i.rd 0 else rtRs .and i .nop

/-- OR. -/
def decodeOr (i : Word) : Uop :=
  if i.rs = 0#5 then
    { srcA := i.rt
      srcAValid := i.rt != 0#5
      dst := i.rd
      dstValid := i.rd != 0#5
      op := if i.rd = 0#5 then .nop else if i.rt = 0#5 then .movi else .mov }
  else if i.rt = 0#5 then oneReg .mov .nop i.rs i.rd 0
  else rtRs .or i .nop

/-- SLT. -/
def decodeSlt (i : Word) : Uop where
  srcA := if i.rt = 0#5 then i.rs else i.rt
  srcAValid := !(i.rs == 0#5 && i.rt == 0#5)
  srcB := i.rs
  srcBValid := i.rs != 0#5 && i.rt != 0#5
  dst := i.rd
  dstValid := i.rd != 0#5
  op :=
    if i.rd = 0#5 then .nop
    else if i.rs = 0#5 ∧ i.rt = 0#5 then .movi
    else if i.rs = 0#5 then .sgtz
    else if i.rt = 0#5 then .sltz
    else .slt

/-- SLTU. -/
def decodeSltu (i : Word) : Uop where
  srcA := i.rt
  srcAValid := i.rt != 0#5
  srcB := i.rs
  srcBValid := i.rs != 0#5 && i.rt != 0#5
  dst := i.rd
  dstValid := i.rd != 0#5
  op :=
    if i.rd = 0#5 then .nop
    else if i.rt = 0#5 then .movi
    else if i.rs = 0#5 then .snez
    else .sltu

/-- JALR without a destination is JR. -/
def decodeJalr (i : Word) (p : Pred) : Uop :=
  { jumpReg (if i.rd = 0#5 then .jr else .jalr) i p with dstValid := i.rd != 0#5, dst := i.rd }

/-- TGEU. -/
def decodeTgeu (i : Word) : Uop :=
  if i.rs = 0#5 ∧ i.rt ≠ 0#5 then trapZero .teqz i.rt else trapRegs .tgeu i

/-- TLTU. -/
def decodeTltu (i : Word) : Uop :=
  if i.rt = 0#5 then { op := .nop }
  else if i.rs = 0#5 then trapZero .tnez i.rt
  else trapRegs .tltu i

/-- Opcode 0. -/
def decodeSpecial (in64bMode : Bool) (p : Pred) (i : Word) : Uop :=
  match i.funct.toNat with
  | 0 => shiftImm .sll i
  | 2 => shiftImm .srl i
  | 3 => shiftImm .sra i
  | 4 => rtRs .sllv i .nop
  | 6 => rtRs .srlv i .nop
  | 7 => rtRs .srav i .nop
  | 20 => gated in64bMode (rtRs .dsllv i .nop)
  | 22 => gated in64bMode (rtRs .dsrlv i .nop)
  | 23 => gated in64bMode (rtRs .dsrav i .nop)
  | 56 => gated in64bMode (dshiftImm .dsll i)
  | 58 => gated in64bMode (dshiftImm .dsrl i)
  | 59 => gated in64bMode (dshiftImm .dsra i)
  | 60 => gated in64bMode (dshiftImm .dsll32 i)
  | 62 => gated in64bMode (dshiftImm .dsrl32 i)
  | 63 => gated in64bMode (dshiftImm .dsra32 i)
  | 8 => jumpReg .jr i p
  | 9 => decodeJalr i p
  -- SYNC
  | 15 => { op := .nop }
  | 16 => fromHilo .mfhi i
  | 17 => toHilo .mthi i
  | 18 => fromHilo .mflo i
  | 19 => toHilo .mtlo i
  | 24 => mulDiv .mult i
  | 25 => mulDiv .multu i
  | 26 => mulDiv .div i
  | 27 => mulDiv .divu i
  | 28 => gated in64bMode (mulDiv .dmult i)
  | 29 => gated in64bMode (mulDiv .dmultu i)
  | 30 => gated in64bMode (mulDiv .ddiv i)
  | 31 => gated in64bMode (mulDiv .ddivu i)
  | 32 => rtRs .add i .addchk
  -- the one-source form of a 32-bit addition is a shift by zero
  | 33 => foldZero .addu i 0 .sll
  | 34 => decodeSub i
  | 35 => decodeSubu i
  | 36 => decodeAnd i
  | 37 => decodeOr i
  | 38 => foldZero .xor i 0 .mov
  | 39 => foldZero .nor i 0xffff .not
  | 42 => decodeSlt i
  | 43 => decodeSltu i
  | 44 => gated in64bMode (rtRs .dadd i .daddchk)
  | 45 => gated in64bMode (foldZero .daddu i 0 .mov)
  | 46 => gated in64bMode (rsRt .dsub i .dsubchk)
  | 47 => gated in64bMode (rsRt .dsubu i .nop)
  | 48 => trapRegs .tge i
  | 49 => decodeTgeu i
  | 50 => trapRegs .tlt i
  | 51 => decodeTltu i
  | 52 => trapEq .teq i .teqz
  | 54 => trapEq .tne i .tnez
  | _ => {}

/-- The trap immediates undo the branch fields of opcode 1. -/
def trapImm (op : Op) (i : Word) (p : Pred) : Uop :=
  { branch1 op i p with hasDelaySlot := false }

/-- Opcode 1.  BGEZAL of register zero is BAL. -/
def decodeRegimm (p : Pred) (i : Word) : Uop :=
  match i.rt.toNat with
  | 0 => branch1 .bltz i p
  | 1 => branch1 .bgez i p
  | 2 => likely1 .bltzl i p
  | 3 => likely1 .bgezl i p
  | 16 => linking (branch1 .bltzal i p)
  | 17 =>
    { linking (branch1 (if i.rs = 0#5 then .bal else .bgezal) i p) with srcAValid := i.rs != 0#5 }
  | 18 => linking (likely1 .bltzall i p)
  | 19 => linking (likely1 .bgezall i p)
  | 8 => trapImm .tge i p
  | 9 => trapImm .tgeu i p
  | 10 => trapImm .tlt i p
  | 11 => trapImm .tltu i p
  | 12 => trapImm .teq i p
  | 14 => trapImm .tne i p
  | _ => branch1 .ii i p

/-- BEQ. -/
def decodeBeq (p : Pred) (i : Word) : Uop where
  op :=
    if i.rs = 0#5 ∧ i.rt = 0#5 then .bra
    else if i.rt = 0#5 then .beqz
    else if i.rs = 0#5 then .beqz
    else .beq
  srcA := if i.rs = 0#5 then i.rt else i.rs
  srcAValid := !(i.rs == 0#5 && i.rt == 0#5)
  srcB := i.rt
  srcBValid := i.rs != 0#5 && i.rt != 0#5
  hasDelaySlot := true
  imm := immOf i
  brPred := p.insnPred

/-- BNE. -/
def decodeBne (p : Pred) (i : Word) : Uop where
  op :=
    if i.rs = 0#5 ∧ i.rt = 0#5 then .bne
    else if i.rt = 0#5 then .bnez
    else if i.rs = 0#5 then .bnez
    else .bne
  srcA := if i.rs = 0#5 ∧ i.rt ≠ 0#5 then i.rt else i.rs
  srcAValid := true
  srcB := i.rt
  srcBValid := !((i.rs == 0#5) ^^ (i.rt == 0#5))
  hasDelaySlot := true
  imm := immOf i
  brPred := p.insnPred

/-- JAL. -/
def decodeJal (i : Word) : Uop where
  op := .jal
  hasDelaySlot := true
  imm := immOf i
  jmpImm := (i.extractLsb' 16 10).setWidth 48
  dstValid := true
  dst := 31
  brPred := true

/-- ADDI. -/
def decodeAddi (i : Word) : Uop where
  op :=
    if i.rt = 0#5 then (if i.rs = 0#5 then .nop else .addichk)
    else if i.rs = 0#5 then .movi else .addi
  srcAValid := i.rs != 0#5
  srcA := i.rs
  dstValid := i.rt != 0#5
  dst := i.rt
  imm := immOf i

/-- ADDIU. -/
def decodeAddiu (i : Word) : Uop :=
  if i.rs = 0#5 then constant i.rt (immOf i) else immOp .addiu i .nop

/-- LUI. -/
def decodeLui (i : Word) : Uop where
  op := if i.rt = 0#5 then .nop else .lui
  dstValid := i.rt != 0#5
  dst := i.rt
  imm := immOf i

/-- `decode_mips`, of the words that the module is about. -/
def decode (in64bMode : Bool) (p : Pred) (i : Word) : Option Uop :=
  match i.opcode.toNat with
  | 0 => if i.funct = 12 ∨ i.funct = 13 then none else some (decodeSpecial in64bMode p i)
  | 1 => some (decodeRegimm p i)
  | 2 => some { op := .j, hasDelaySlot := true }
  | 3 => some (decodeJal i)
  | 4 => some (decodeBeq p i)
  | 5 => some (decodeBne p i)
  | 6 => some (branch1 .blez i p)
  | 7 => some (branch1 .bgtz i p)
  | 8 => some (decodeAddi i)
  | 9 => some (decodeAddiu i)
  | 10 => some (immOp .slti i .nop)
  | 11 => some (immOp .sltiu i .nop)
  | 12 => some (logicImm .andi i .movi (if i.rs = 0#5 then 0 else immOf i))
  | 13 => some (logicImm .ori i .moviu (immOf i))
  | 14 => some (logicImm .xori i .moviu (immOf i))
  | 15 => some (decodeLui i)
  | 20 => some (likely2 .beql i .beqzl p)
  | 21 => some (likely2 .bnel i .bnezl p)
  | 22 => some (likely1 .blezl i p)
  | 23 => some (likely1 .bgtzl i p)
  | 24 => some (gated in64bMode (immOp .daddi i .daddichk))
  | 25 => some (gated in64bMode (immOp .daddiu i .nop))
  | _ => none

end Exec

end R9999
