import R9999.Iss.Coproc

/-!
# One instruction

`execMips` fetches and executes the instruction at the pc.  A jump or a branch runs its
delay slot by calling `execMips` again, so that one call can execute several instructions;
the number of nested calls is bounded by an argument here.  The calls also say whether the
instruction took an exception, which the source's do not.
-/

namespace R9999

namespace Iss

/-- What a jump or a branch comes to, from the state before its slot. -/
structure Jump where
  target : BitVec 64
  taken : Bool
  /-- The branch skips its slot when it is not taken. -/
  likely : Bool := false
  /-- The register that gets the return address. -/
  link : Option (BitVec 5) := none
  /-- The return address is written after the slot has run. -/
  linkLate : Bool := false
  late_regular : linkLate = true → likely = false := by simp

/-- A regular jump that links before its slot. -/
theorem Jump.regular_early : false = true → false = false := fun _ => rfl

/-- `branch`, but for the slot. -/
def branchTo (i : Word) (s : State) (taken : Bool) : Jump where
  target := s.pc + 4 + (i.simm <<< 2)
  taken

/-- `branch` for the likely ones. -/
def likelyTo (i : Word) (s : State) (taken : Bool) : Jump :=
  { branchTo i s taken with likely := true, late_regular := by simp [branchTo] }

/-- The target of J and JAL, in the region of the slot. -/
def regionTarget (i : Word) (s : State) : BitVec 64 :=
  (i.index.setWidth 64 <<< 2) ||| ((s.pc + 4) &&& ~~~0xfffffff)

/-- The jumps and branches. -/
def jumpOf (i : Word) (insn : Insn) (s : State) : Option Jump :=
  let rs := s.gpr i.rs
  let rt := s.gpr i.rt
  let cc := getConditionCode s (i.extractLsb' 18 3)
  match insn with
  | .jr => some { target := rs, taken := true }
  | .jalr =>
    some { target := rs, taken := true, link := if i.rd ≠ 0 then some i.rd else none }
  | .j => some { target := regionTarget i s, taken := true }
  | .jal => some { target := regionTarget i s, taken := true, link := some 31 }
  | .beq => some (branchTo i s (rt == rs))
  | .bne => some (branchTo i s (rt != rs))
  | .blez => some (branchTo i s (rs.sle 0))
  | .bgtz => some (branchTo i s (BitVec.slt 0 rs))
  | .bgez => some (branchTo i s (BitVec.sle 0 rs))
  | .bltz => some (branchTo i s (rs.slt 0))
  | .beql => some (likelyTo i s (rt == rs))
  | .bnel => some (likelyTo i s (rt != rs))
  | .blezl => some (likelyTo i s (rs.sle 0))
  | .bgtzl => some (likelyTo i s (BitVec.slt 0 rs))
  | .bgezl => some (likelyTo i s (BitVec.sle 0 rs))
  | .bltzl => some (likelyTo i s (rs.slt 0))
  | .bgezal =>
    some { branchTo i s (BitVec.sle 0 rs) with
      link := some 31, linkLate := true, late_regular := fun _ => rfl }
  | .bltzal =>
    some { branchTo i s (rs.slt 0) with
      link := some 31, linkLate := true, late_regular := fun _ => rfl }
  | .bgezall => some { likelyTo i s (BitVec.sle 0 rs) with link := some 31 }
  | .bltzall => some { likelyTo i s (rs.slt 0) with link := some 31 }
  | .bc1f => some (branchTo i s !cc)
  | .bc1t => some (branchTo i s cc)
  | .bc1fl => some (likelyTo i s !cc)
  | .bc1tl => some (likelyTo i s cc)
  | _ => none

/-- The slot is skipped. -/
def Jump.nullifies (j : Jump) : Bool := j.likely && !j.taken

/-- The write of the return address of an instruction at `pc`. -/
def Jump.writeLink (j : Jump) (pc : BitVec 64) (s : State) : State :=
  match j.link with
  | some r => s.setGpr r (pc + 8)
  | none => s

/-- `run_delay_slot`.  Besides whether the slot took an exception it gives what the source
takes for that: that Status.EXL was clear before and is set after. -/
def runDelaySlot (run : State → Option (Bool × State)) (s : State) :
    Option (Bool × Bool × State) :=
  let exlBefore := s.srHas srExl
  let saved := s.inDelaySlot
  (run { s with inDelaySlot := true }).map fun r =>
    (r.1, !exlBefore && r.2.srHas srExl, { r.2 with inDelaySlot := saved })

/-- A jump or a branch, with its slot. -/
def runJump (run : State → Option (Bool × State)) (j : Jump) (s : State) :
    Option (Bool × State) :=
  let pc := s.pc
  let s := (if j.linkLate then s else j.writeLink pc s).setPc (pc + 4)
  if j.nullifies then some (false, s.setPc (s.pc + 4))
  else
    (runDelaySlot run s).map fun r =>
      let s := if j.linkLate then j.writeLink pc r.2.2 else r.2.2
      (r.1, if j.taken && !r.2.1 then s.setPc j.target else s)

/-- `in_64b_mode`: 64-bit operations are allowed. -/
def in64bMode (s : State) : Bool :=
  let ksu := (s.cpr0 Cpr0.sr).extractLsb' 3 2
  let exl := s.srHas srExl
  let erl := s.srHas srErl
  let kernel := ksu == 0 || exl || erl
  let user := ksu == 2 && !exl && !erl
  let super := ksu == 1 && !exl && !erl
  kernel || (user && s.srHas srUx) || (super && s.srHas srSx)

/-- The end of an instruction that is not a jump or a branch. -/
def Effect.finish : Effect → Option (Bool × State)
  | .next s => some (false, s.setPc (s.pc + 4))
  | .fault s => some (true, s)
  | .stop => none

/-- The start of an instruction: register 0 is cleared, and the pc translated. -/
def fetch (s : State) : BitVec 32 × State :=
  translate { s.setGpr 0 0 with tlbFault := false } s.pc .fetch

/-- An instruction that has been fetched. -/
def execute (fpu : Fpu) (run : State → Option (Bool × State)) (i : Word) (s : State) :
    Option (Bool × State) :=
  if is64bGated i ∧ in64bMode s = false then some (true, takeExceptionRi s)
  else if needsCoproc1 i ∧ s.srHas srCu1 = false then some (true, takeExceptionCpu s 1)
  else
    let s := breakLink i s
    match jumpOf i (decode i) s with
    | some j => runJump run j s
    | none => (coproc1 fpu i (decode i) s).finish

/-- `execMips`, with at most `n` nested calls. -/
def execMips (fpu : Fpu) : Nat → State → Option (Bool × State)
  | 0, _ => none
  | n + 1, s =>
    let f := fetch s
    if f.2.tlbFault then some (true, f.2)
    else execute fpu (execMips fpu n) (Memory.read f.2.mem f.1 4) f.2

end Iss

end R9999
