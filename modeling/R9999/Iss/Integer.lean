import R9999.Iss.Insn

/-!
# The integer instructions

What the arithmetic, shifts, multiplies, divides, traps and moves of `execMips` do to the
state.  Every one of them either ends with `s->pc += 4` or raises an exception, which is
what `Effect` records; the jumps and branches are elsewhere.
-/

namespace R9999

namespace Iss

/-- How an instruction ends. -/
inductive Effect where
  /-- With the state that `s->pc += 4` is then done to. -/
  | next (s : State)
  /-- With an exception, already taken. -/
  | fault (s : State)
  /-- With the end of the program: `exit`, or a division by zero of the host. -/
  | stop

/-- `sext64`. -/
def sext64 (x : BitVec 32) : BitVec 64 := x.signExtend 64

/-- The low word of a register. -/
def lo32 (x : BitVec 64) : BitVec 32 := x.setWidth 32

/-- A condition as a register value. -/
def flag (b : Bool) : BitVec 64 := if b then 1 else 0

/-- `s->gpr[r] = v; s->pc += 4`. -/
def write (s : State) (r : BitVec 5) (v : BitVec 64) : Effect := .next (s.setGpr r v)

/-- A trap on a condition. -/
def trapIf (s : State) (b : Bool) : Effect := if b then .fault (raiseTrap s) else .next s

/-- The overflow of an addition, from the signs of the operands and of the result. -/
def addOverflows {w : Nat} (a b : BitVec w) : Bool :=
  (a + b).msb != b.msb && a.msb == b.msb

/-- The overflow of a subtraction. -/
def subOverflows {w : Nat} (a b : BitVec w) : Bool :=
  (a - b).msb != a.msb && a.msb != b.msb

/-- `s->lo = lo; s->hi = hi`. -/
def setHiLo (s : State) (hi lo : BitVec 64) : State := { s with hi, lo }

/-- DIV: 32-bit operands, divided as 64-bit numbers. -/
def div32 (s : State) (a b : BitVec 32) : Effect :=
  if b = 0 then .next s
  else
    let a := a.signExtend 64
    let b := b.signExtend 64
    .next (setHiLo s (sext64 (lo32 (a.srem b))) (sext64 (lo32 (a.sdiv b))))

/-- DIVU guards the whole register and divides by its low word. -/
def divu32 (s : State) (a b : BitVec 64) : Effect :=
  if b = 0 then .next s
  else if lo32 b = 0 then .stop
  else .next (setHiLo s (sext64 (lo32 a % lo32 b)) (sext64 (lo32 a / lo32 b)))

/-- DDIV, whose one overflow is left out of the host's division. -/
def div64 (s : State) (a b : BitVec 64) : Effect :=
  if b = 0 then .next s
  else if a = BitVec.intMin 64 ∧ b = -1 then .next (setHiLo s 0 a)
  else .next (setHiLo s (a.srem b) (a.sdiv b))

/-- DDIVU. -/
def divu64 (s : State) (a b : BitVec 64) : Effect :=
  if b = 0 then .next s else .next (setHiLo s (a % b) (a / b))

/-- The product of two words or double words, high half and low half. -/
def mul {w : Nat} (s : State) (ext : BitVec w → BitVec (w + w)) (out : BitVec w → BitVec 64)
    (a b : BitVec w) : Effect :=
  let y := ext a * ext b
  .next (setHiLo s (out ((y >>> w).setWidth w)) (out (y.setWidth w)))

/-- SYSCALL (8) and BREAK (9) trap into the operating system that is being run, and
otherwise mark the end of the program. -/
def syscall (s : State) (code : BitVec 32) : Effect :=
  if s.osMode then .fault (raiseGeneral code s) else .next { s with brk := true }

/-- The instructions of opcode 0 other than the jumps, and the reserved words. -/
def special (i : Word) (insn : Insn) (s : State) : Effect :=
  let rs := s.gpr i.rs
  let rt := s.gpr i.rt
  let sa := i.sa.toNat
  let rd v := write s i.rd v
  match insn with
  | .sll => rd (sext32 (lo32 rt <<< sa))
  | .srl => rd (sext64 (lo32 rt >>> sa))
  | .sra => rd (sext32 ((lo32 rt).sshiftRight sa))
  | .sllv => rd (sext64 (lo32 rt <<< (rs &&& 0x1f).toNat))
  | .srlv => rd (sext64 (lo32 rt >>> (rs &&& 0x1f).toNat))
  | .srav => rd (sext32 ((lo32 rt).sshiftRight (rs &&& 0x1f).toNat))
  | .syscall => syscall s 8
  | .brk => syscall s 9
  | .sync => .next s
  | .mfhi => rd s.hi
  | .mthi => .next { s with hi := rs }
  | .mflo => rd s.lo
  | .mtlo => .next { s with lo := rs }
  | .dsllv => rd (rt <<< (rs &&& 63).toNat)
  | .dsrlv => rd (rt >>> (rs &&& 63).toNat)
  | .dsrav => rd (rt.sshiftRight (rs &&& 63).toNat)
  | .mult => mul s (·.signExtend 64) sext32 (lo32 rs) (lo32 rt)
  | .multu => mul s (·.setWidth 64) sext64 (lo32 rs) (lo32 rt)
  | .div => div32 s (lo32 rs) (lo32 rt)
  | .divu => divu32 s rs rt
  | .dmult => mul s (·.signExtend 128) id rs rt
  | .dmultu => mul s (·.setWidth 128) id rs rt
  | .ddiv => div64 s rs rt
  | .ddivu => divu64 s rs rt
  | .add =>
    if addOverflows (lo32 rs) (lo32 rt) then .fault (raiseOverflow s)
    else rd (sext64 (lo32 rs + lo32 rt))
  | .addu => rd (sext64 (lo32 rs + lo32 rt))
  | .sub =>
    if subOverflows (lo32 rs) (lo32 rt) then .fault (raiseOverflow s)
    else rd (sext64 (lo32 rs - lo32 rt))
  | .subu => rd (sext64 (lo32 rs - lo32 rt))
  | .and => rd (rs &&& rt)
  | .or => if i.rd ≠ 0 then rd (rs ||| rt) else .next s
  | .xor => rd (rs ^^^ rt)
  | .nor => rd (~~~(rs ||| rt))
  | .slt => rd (flag (rs.slt rt))
  | .sltu => rd (flag (rs.ult rt))
  | .dadd => if addOverflows rs rt then .fault (raiseOverflow s) else rd (rs + rt)
  | .daddu => rd (rs + rt)
  | .dsub => if subOverflows rs rt then .fault (raiseOverflow s) else rd (rs - rt)
  | .dsubu => rd (rs - rt)
  | .tge => trapIf s (rt.sle rs)
  | .tgeu => trapIf s (rt.ule rs)
  | .tlt => trapIf s (rs.slt rt)
  | .tltu => trapIf s (rs.ult rt)
  | .teq => trapIf s (rs == rt)
  | .tne => trapIf s (rs != rt)
  | .dsll => rd (rt <<< sa)
  | .dsrl => rd (rt >>> sa)
  | .dsra => rd (rt.sshiftRight sa)
  | .dsll32 => rd (rt <<< (sa + 32))
  | .dsrl32 => rd (rt >>> (sa + 32))
  | .dsra32 => rd (rt.sshiftRight (sa + 32))
  | .reserved => .fault (takeExceptionRi s)
  | _ => .stop

/-- The arithmetic and the traps with an immediate, and those without. -/
def immediate (i : Word) (insn : Insn) (s : State) : Effect :=
  let rs := s.gpr i.rs
  let rt v := write s i.rt v
  match insn with
  | .addi =>
    if addOverflows (lo32 rs) (lo32 i.simm) then .fault (raiseOverflow s)
    else rt (sext64 (lo32 rs + lo32 i.simm))
  | .addiu => rt (sext32 (lo32 (rs + i.simm)))
  | .slti => rt (flag (rs.slt i.simm))
  | .sltiu => rt (flag (rs.ult i.simm))
  | .andi => rt (rs &&& i.uimm)
  | .ori => rt (rs ||| i.uimm)
  | .xori => rt (rs ^^^ i.uimm)
  | .lui => rt (sext64 (lo32 i.uimm <<< 16))
  | .daddi => if addOverflows rs i.simm then .fault (raiseOverflow s) else rt (rs + i.simm)
  | .daddiu => rt (rs + i.simm)
  | .tgei => trapIf s (i.simm.sle rs)
  | .tgeiu => trapIf s (i.simm.ule rs)
  | .tlti => trapIf s (rs.slt i.simm)
  | .tltiu => trapIf s (rs.ult i.simm)
  | .teqi => trapIf s (rs == i.simm)
  | .tnei => trapIf s (rs != i.simm)
  -- listed with the trap immediates, and never traps
  | .regimm13 => .next s
  | _ => special i insn s

end Iss

end R9999
