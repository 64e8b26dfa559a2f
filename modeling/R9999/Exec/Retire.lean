import R9999.Core.Decode
import R9999.Exec.Datapath
import R9999.Mmu.Rtl

/-!
# What an instruction retires

The architectural effect of an instruction that retires, with its delay slot.  NOP, J and a
reserved instruction are folded at allocation: they complete without being executed.  A
branch that was predicted wrong restarts the fetch at the pc that the datapath computed; one
that was predicted right goes where the fetch went, which for J and JAL is never checked.
-/

namespace R9999

namespace Exec

open Iss (Word)

/-- The registers that the operations read and write. -/
structure Regs where
  gpr : BitVec 5 → BitVec 64
  hi : BitVec 64
  lo : BitVec 64

/-- What the physical registers hold that a source not marked valid is read from. -/
structure Junk where
  a : BitVec 64
  b : BitVec 64
  hilo : BitVec 128

section Operation

variable (x : Junk) (u : Uop) (pc : BitVec 64) (r : Regs)

/-- `t_srcA`. -/
def operandA : BitVec 64 := if u.srcAValid then r.gpr u.srcA else x.a

/-- `t_srcB`. -/
def operandB : BitVec 64 := if u.srcBValid then r.gpr u.srcB else x.b

/-- `t_src_hilo`. -/
def operandHilo : BitVec 128 := if u.hiloSrcValid then r.hi ++ r.lo else x.hilo

/-- `t_fold_uop`. -/
def folds : Bool := u.op = .nop || u.op = .j || u.op = .ii

/-- The completion of an operation.  A folded one faults only when it is reserved. -/
def completion : Out :=
  if folds u then { unimpOp := u.op = .ii, takeBr := u.op = .j }
  else exec u pc (operandA x u r) (operandB x u r) (operandHilo x u r)

/-- The code of the exception that a completion takes at the head, `n_cause`. -/
def Out.cause (o : Out) : Option (BitVec 5) :=
  if o.faulted then
    if o.unimpOp then some 10
    else if o.overflow then some 12
    else if o.trap then some 13
    else none
  else none

/-- The registers after an operation has retired.  A destination that is not marked valid
is physical register zero. -/
def commit (o : Out) : Regs where
  gpr := if o.wrIntPrf then Function.update r.gpr u.dst o.result else r.gpr
  hi := if o.wrHilo && u.hiloDstValid then o.hiloResult.extractLsb' 64 64 else r.hi
  lo := if o.wrHilo && u.hiloDstValid then o.hiloResult.extractLsb' 0 64 else r.lo

/-- An operation at the head: the registers, and the exception if it takes one. -/
def retire : Regs × Option (BitVec 5) :=
  let o := completion x u pc r
  match o.cause with
  | some c => (r, some c)
  | none => (commit u r o, none)

end Operation

/-- `w_in_64b_mode` of `decode_mips`: 64-bit operations are allowed. -/
def in64bOps (sr : BitVec 32) : Bool :=
  Mmu.inKernelMode sr || (Mmu.inUserMode sr && Mmu.srHas sr Iss.srUx) ||
    (Mmu.inSupervisorMode sr && Mmu.srHas sr Iss.srSx)

/-- `n_restart_pc` of an exception that is no refill. -/
def generalVector (sr : BitVec 32) : BitVec 64 :=
  signExtend32 ((if Mmu.srHas sr Iss.srBev then 0xbfc00200 else 0x80000000) ||| 0x180)

/-- The target of J and JAL in the fetch, `{r_cache_pc[63:28], insn[25:0], 2'd0}`. -/
def fetchRegion (i : Word) (pc : BitVec 64) : BitVec 64 :=
  pc.extractLsb' 28 36 ++ (i.index ++ (0 : BitVec 2) : BitVec 28)

/-- Where the fetch goes after the slot of a jump or a branch, by its predecode bits. -/
def fetchNext (p : Pred) (i : Word) (pc : BitVec 64) : BitVec 64 :=
  let target := pc + 4 + (i.simm <<< 2)
  match (Core.predecode (Core.bswap32 i)).toNat with
  | 3 | 5 => fetchRegion i pc
  | 2 | 8 => target
  | 1 | 9 => if p.insnPred then target else pc + 8
  | 4 | 6 | 7 => p.insnPredTarget
  | _ => pc + 8

/-- What a step comes to. -/
structure Result where
  regs : Regs
  pc : BitVec 64
  cause : Option (BitVec 5)

/-- What the core is given besides the program's state: what it finds where it does not
look, and the predictions. -/
structure Micro where
  junk : Junk
  pred : Pred

/-- The step of an instruction `i` at `pc`, with `slot` as its delay slot if it has one.
There is none for the words that are not decoded here, and none for a jump or a branch in a
delay slot. -/
def step (m m' : Micro) (sr : BitVec 32) (i slot : Word) (pc : BitVec 64) (r : Regs) :
    Option Result :=
  match decode (in64bOps sr) m.pred i with
  | none => none
  | some u =>
    let o := completion m.junk u pc r
    let first := retire m.junk u pc r
    match first.2 with
    | some c => some { regs := first.1, pc := generalVector sr, cause := some c }
    | none =>
      if !u.hasDelaySlot then some { regs := first.1, pc := pc + 4, cause := none }
      -- the slot of a likely branch that is not taken is discarded in `DRAIN`
      else if o.faulted && u.hasNullifyingDelaySlot && !o.takeBr then
        some { regs := first.1, pc := o.pc, cause := none }
      else
        match decode (in64bOps sr) m'.pred slot with
        | none => none
        | some u' =>
          if u'.hasDelaySlot then none
          else
            let second := retire m'.junk u' (pc + 4) first.1
            match second.2 with
            | some c => some { regs := second.1, pc := generalVector sr, cause := some c }
            | none =>
              some
                { regs := second.1
                  pc := if o.faulted then o.pc else fetchNext m.pred i pc
                  cause := none }

end Exec

end R9999
