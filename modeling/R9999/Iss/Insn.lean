import R9999.Iss.State

/-!
# Instruction words

The fields of an instruction word, and the instruction that the nested switches of
`execMips` choose for it in the MIPS III build.  The words for which that build raises
Reserved Instruction are one case, and those for which it exits are another.
-/

namespace R9999

namespace Iss

/-- An instruction word. -/
abbrev Word := BitVec 32

namespace Word

variable (i : Word)

def opcode : BitVec 6 := i.extractLsb' 26 6

def rs : BitVec 5 := i.extractLsb' 21 5

def rt : BitVec 5 := i.extractLsb' 16 5

def rd : BitVec 5 := i.extractLsb' 11 5

def sa : BitVec 5 := i.extractLsb' 6 5

def funct : BitVec 6 := i.extractLsb' 0 6

/-- The immediate, zero-extended. -/
def uimm : BitVec 64 := (i.extractLsb' 0 16).setWidth 64

/-- The immediate, sign-extended. -/
def simm : BitVec 64 := (i.extractLsb' 0 16).signExtend 64

/-- The 26-bit target of a jump. -/
def index : BitVec 26 := i.extractLsb' 0 26

end Word

/-- What a word is executed as. -/
inductive Insn where
  | sll | srl | sra | sllv | srlv | srav | jr | jalr | syscall | brk | sync
  | mfhi | mthi | mflo | mtlo | dsllv | dsrlv | dsrav
  | mult | multu | div | divu | dmult | dmultu | ddiv | ddivu
  | add | addu | sub | subu | and | or | xor | nor | slt | sltu
  | dadd | daddu | dsub | dsubu
  | tge | tgeu | tlt | tltu | teq | tne
  | dsll | dsrl | dsra | dsll32 | dsrl32 | dsra32
  | bltz | bgez | bltzl | bgezl | bltzal | bgezal | bltzall | bgezall
  | tgei | tgeiu | tlti | tltiu | teqi | tnei | regimm13
  | j | jal | beq | bne | blez | bgtz | beql | bnel | blezl | bgtzl
  | addi | addiu | slti | sltiu | andi | ori | xori | lui | daddi | daddiu
  | lb | lh | lwl | lw | lbu | lhu | lwr | lwu | ldl | ldr | ld
  | sb | sh | swl | sw | sdl | sdr | swr | sd
  | ll | lld | sc | scd | cache | pref
  | lwc1 | ldc1 | swc1 | sdc1
  | tlbr | tlbwi | tlbwr | tlbp | eret | wait | di | ei
  | mfc0 | dmfc0 | mtc0 | dmtc0
  | bc1f | bc1t | bc1fl | bc1tl
  | mfc1 | dmfc1 | mtc1 | dmtc1 | cfc1 | ctc1
  /-- The compares and the arithmetic of COP1. -/
  | fpOp
  /-- A word that raises Reserved Instruction. -/
  | reserved
  /-- A word for which the interpreter exits. -/
  | unhandled
  deriving DecidableEq, Repr

/-- Opcode 0, by function field. -/
def decodeSpecial (f : BitVec 6) : Insn :=
  match f.toNat with
  | 0x00 => .sll | 0x02 => .srl | 0x03 => .sra | 0x04 => .sllv | 0x06 => .srlv | 0x07 => .srav
  | 0x08 => .jr | 0x09 => .jalr | 0x0C => .syscall | 0x0D => .brk | 0x0f => .sync
  | 0x10 => .mfhi | 0x11 => .mthi | 0x12 => .mflo | 0x13 => .mtlo
  | 0x14 => .dsllv | 0x16 => .dsrlv | 0x17 => .dsrav
  | 0x18 => .mult | 0x19 => .multu | 0x1A => .div | 0x1B => .divu
  | 0x1C => .dmult | 0x1D => .dmultu | 0x1E => .ddiv | 0x1F => .ddivu
  | 0x20 => .add | 0x21 => .addu | 0x22 => .sub | 0x23 => .subu
  | 0x24 => .and | 0x25 => .or | 0x26 => .xor | 0x27 => .nor
  | 0x2A => .slt | 0x2B => .sltu | 0x2C => .dadd | 0x2D => .daddu | 0x2E => .dsub | 0x2F => .dsubu
  | 0x30 => .tge | 0x31 => .tgeu | 0x32 => .tlt | 0x33 => .tltu | 0x34 => .teq | 0x36 => .tne
  | 0x38 => .dsll | 0x3A => .dsrl | 0x3B => .dsra
  | 0x3C => .dsll32 | 0x3E => .dsrl32 | 0x3F => .dsra32
  | _ => .reserved

/-- Opcode 1, by the `rt` field (`_bgez_bltz`). -/
def decodeRegimm (rt : BitVec 5) : Insn :=
  match rt.toNat with
  | 0 => .bltz | 1 => .bgez | 2 => .bltzl | 3 => .bgezl
  | 8 => .tgei | 9 => .tgeiu | 10 => .tlti | 11 => .tltiu | 12 => .teqi | 13 => .regimm13
  | 14 => .tnei
  | 16 => .bltzal | 17 => .bgezal | 18 => .bltzall | 19 => .bgezall
  | _ => .unhandled

/-- Opcode 0x10. -/
def decodeCoproc0 (i : Word) : Insn :=
  if i.getLsbD 25 then
    match i.funct.toNat with
    | 0x1 => .tlbr | 0x2 => .tlbwi | 0x6 => .tlbwr | 0x8 => .tlbp | 24 => .eret | 32 => .wait
    | _ => .unhandled
  else if i.rs = 11 ∧ i.extractLsb' 0 16 = 0x6000 then .di
  else if i.rs = 11 ∧ i.extractLsb' 0 16 = 0x6020 then .ei
  else
    match i.rs.toNat with
    | 0x0 => .mfc0 | 0x1 => .dmfc0 | 0x4 => .mtc0 | 0x5 => .dmtc0
    | _ => .unhandled

/-- The formats `FMT_S`, `FMT_D`, `FMT_W` and `FMT_L` of COP1. -/
abbrev fmtS : BitVec 5 := 16
abbrev fmtD : BitVec 5 := 17
abbrev fmtW : BitVec 5 := 20
abbrev fmtL : BitVec 5 := 21

/-- The compares and the arithmetic of COP1. -/
inductive FpOp where
  /-- The compares `c.cond.fmt`. -/
  | c
  /-- What writes register `fd`. -/
  | arith
  /-- What is left to the Unimplemented Operation exception. -/
  | unimpl
  /-- An operation given a format that it has no case for, which ends the program. -/
  | unhandled
  deriving DecidableEq, Repr

/-- The compares and the arithmetic of COP1, by function field. -/
def decodeFpOp (i : Word) : FpOp :=
  if i.extractLsb' 4 2 = 3 then (if i.rs = fmtS ∨ i.rs = fmtD then .c else .unhandled)
  else
    match i.funct.toNat with
    | 0x0 | 0x1 | 0x2 | 0x3 | 0x4 | 0x5 | 0x6 | 0x7 | 0xd =>
      if i.rs = fmtS ∨ i.rs = fmtD then .arith else .unhandled
    | 0x8 | 0x9 | 0xa | 0xb | 0x25 | 0xc | 0xe | 0xf | 0x24 => .arith
    | 0x20 => if i.rs = fmtD ∨ i.rs = fmtW ∨ i.rs = fmtL then .arith else .unhandled
    | 0x21 => if i.rs = fmtS ∨ i.rs = fmtW ∨ i.rs = fmtL then .arith else .unhandled
    | _ => .unimpl

/-- Opcode 0x11 (`execCoproc1`). -/
def decodeCoproc1 (i : Word) : Insn :=
  let lowbits := i.extractLsb' 0 11
  if i.rs = 0x8 then
    match (i.extractLsb' 16 2).toNat with
    | 0x0 => .bc1f | 0x1 => .bc1t | 0x2 => .bc1fl | _ => .bc1tl
  else if lowbits = 0 ∧ i.rs = 0x0 then .mfc1
  else if lowbits = 0 ∧ i.rs = 0x4 then .mtc1
  else if lowbits = 0 ∧ i.rs = 0x1 then .dmfc1
  else if lowbits = 0 ∧ i.rs = 0x5 then .dmtc1
  else if lowbits = 0 ∧ i.rs = 0x2 then .cfc1
  else if lowbits = 0 ∧ i.rs = 0x6 then .ctc1
  else .fpOp

/-- What `execMips` executes a word as. -/
def decode (i : Word) : Insn :=
  match i.opcode.toNat with
  | 0x00 => decodeSpecial i.funct
  | 0x01 => decodeRegimm i.rt
  | 0x02 => .j | 0x03 => .jal
  | 0x04 => .beq | 0x05 => .bne | 0x06 => .blez | 0x07 => .bgtz
  | 0x08 => .addi | 0x09 => .addiu | 0x0A => .slti | 0x0B => .sltiu
  | 0x0c => .andi | 0x0d => .ori | 0x0e => .xori | 0x0F => .lui
  | 0x10 => decodeCoproc0 i
  | 0x11 => decodeCoproc1 i
  | 0x12 => .unhandled
  | 0x14 => .beql | 0x15 => .bnel | 0x16 => .blezl | 0x17 => .bgtzl
  | 0x18 => .daddi | 0x19 => .daddiu | 0x1a => .ldl | 0x1b => .ldr
  | 0x20 => .lb | 0x21 => .lh | 0x22 => .lwl | 0x23 => .lw
  | 0x24 => .lbu | 0x25 => .lhu | 0x26 => .lwr | 0x27 => .lwu
  | 0x28 => .sb | 0x29 => .sh | 0x2a => .swl | 0x2B => .sw
  | 0x2c => .sdl | 0x2d => .sdr | 0x2e => .swr | 0x2f => .cache
  | 0x30 => .ll | 0x31 => .lwc1 | 0x33 => .pref | 0x34 => .lld | 0x35 => .ldc1 | 0x37 => .ld
  | 0x38 => .sc | 0x39 => .swc1 | 0x3c => .scd | 0x3D => .sdc1 | 0x3F => .sd
  | _ => .reserved

/-- `is_64b_gated`: the instructions that need 64-bit operations.  `lld` and `scd` are
among them, the other 64-bit loads and stores are not. -/
def is64bGated (i : Word) : Bool :=
  match i.opcode.toNat with
  | 0x18 | 0x19 | 0x34 | 0x3c => true
  | 0x00 =>
    match i.funct.toNat with
    | 0x14 | 0x16 | 0x17 | 0x1c | 0x1d | 0x1e | 0x1f | 0x2c | 0x2d | 0x2e | 0x2f | 0x38 | 0x3a
    | 0x3b => true
    | _ => false
  | _ => false

/-- The opcodes that need coprocessor 1. -/
def needsCoproc1 (i : Word) : Bool :=
  match i.opcode.toNat with
  | 0x11 | 0x31 | 0x35 | 0x39 | 0x3d => true
  | _ => false

/-- `is_mem_store`, the stores that may break the LL/SC link. -/
def isMemStore (i : Word) : Bool :=
  let op := i.opcode
  decide (0x28 ≤ op ∧ op ≤ 0x2e) || op == 0x3f || op == 0x39 || op == 0x3d

end Iss

end R9999
