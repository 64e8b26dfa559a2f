import R9999.Exec.Jumps

/-!
# The instruction in a delay slot

Which registers an instruction without a delay slot reads and writes, and when it raises an
exception.  An instruction that leaves a register alone does the same whatever is in it,
which is what a return address written after the slot comes down to.
-/

namespace R9999

namespace Exec

open Iss (Word State Effect Insn lo32 addOverflows subOverflows raiseGeneral)

/-- The general registers that an instruction reads. -/
def sources (insn : Insn) (i : Word) : List (BitVec 5) :=
  match insn with
  | .sll | .srl | .sra | .dsll | .dsrl | .dsra | .dsll32 | .dsrl32 | .dsra32 => [i.rt]
  | .mthi | .mtlo => [i.rs]
  | .sync | .mfhi | .mflo | .lui | .regimm13 | .reserved | .unhandled => []
  | .addi | .addiu | .slti | .sltiu | .andi | .ori | .xori | .daddi | .daddiu
  | .tgei | .tgeiu | .tlti | .tltiu | .teqi | .tnei => [i.rs]
  | _ => [i.rs, i.rt]

/-- The general register that an instruction writes. -/
def dest (insn : Insn) (i : Word) : Option (BitVec 5) :=
  match insn with
  | .sync | .mthi | .mtlo | .mult | .multu | .div | .divu | .dmult | .dmultu | .ddiv | .ddivu
  | .tge | .tgeu | .tlt | .tltu | .teq | .tne | .tgei | .tgeiu | .tlti | .tltiu | .teqi | .tnei
  | .regimm13 | .reserved | .unhandled => none
  | .addi | .addiu | .slti | .sltiu | .andi | .ori | .xori | .lui | .daddi | .daddiu => some i.rt
  | _ => some i.rd

/-- An instruction reads or writes a register. -/
def Touches (i : Word) (d : BitVec 5) : Prop :=
  d ∈ sources (Iss.decode i) i ∨ dest (Iss.decode i) i = some d

instance (i : Word) (d : BitVec 5) : Decidable (Touches i d) :=
  inferInstanceAs (Decidable (_ ∨ _))

/-- An instruction overflows, traps or is reserved. -/
def insnRaises (insn : Insn) (i : Word) (r : Regs) : Bool :=
  let rs := r.gpr i.rs
  let rt := r.gpr i.rt
  match insn with
  | .add => addOverflows (lo32 rs) (lo32 rt)
  | .sub => subOverflows (lo32 rs) (lo32 rt)
  | .dadd => addOverflows rs rt
  | .dsub => subOverflows rs rt
  | .addi => addOverflows (lo32 rs) (lo32 i.simm)
  | .daddi => addOverflows rs i.simm
  | .tge => rt.sle rs
  | .tgeu => rt.ule rs
  | .tlt => rs.slt rt
  | .tltu => rs.ult rt
  | .teq => rs == rt
  | .tne => rs != rt
  | .tgei => i.simm.sle rs
  | .tgeiu => i.simm.ule rs
  | .tlti => rs.slt i.simm
  | .tltiu => rs.ult i.simm
  | .teqi => rs == i.simm
  | .tnei => rs != i.simm
  | .reserved => true
  | _ => false

/-- A word raises an exception, also for want of 64-bit operations. -/
def Raises (in64 : Bool) (i : Word) (r : Regs) : Bool :=
  (Iss.is64bGated i && !in64) || insnRaises (Iss.decode i) i r

section Raise

variable {i : Word} {insn : Insn} {s : State}

/-- An effect is an exception or is not. -/
def faults : Effect → Bool
  | .fault _ => true
  | _ => false

@[simp] theorem faults_ite (b : Bool) (s₁ : State) (e : Effect) (he : faults e = false) :
    faults (if b then .fault s₁ else e) = b := by
  cases b with
  | false => exact he
  | true => rfl

theorem immediate_faults (hint : integer insn = true) (hsys : insn ≠ .syscall ∧ insn ≠ .brk) :
    faults (Iss.immediate i insn s) = insnRaises insn i (regs s) := by
  cases insn
  case syscall => exact absurd rfl hsys.1
  case brk => exact absurd rfl hsys.2
  all_goals first | exact absurd hint (by decide) | rfl | exact faults_ite _ _ _ rfl | skip
  all_goals
    simp only [Iss.immediate, Iss.special, Iss.div32, Iss.divu32, Iss.div64, Iss.divu64]
    split_ifs
    all_goals rfl

/-- An instruction without a delay slot raises an exception exactly when it should. -/
theorem plainEffect_faults (hint : integer (Iss.decode i) = true)
    (hsys : Iss.decode i ≠ .syscall ∧ Iss.decode i ≠ .brk) :
    faults (plainEffect i s) = Raises (Iss.in64bMode s) i (regs s) := by
  unfold plainEffect Raises
  split
  case isTrue h =>
    rw [h.1, h.2]
    rfl
  case isFalse h =>
    rw [immediate_faults hint hsys]
    cases hgate : Iss.is64bGated i with
    | false => simp
    | true =>
      cases hmode : Iss.in64bMode s with
      | false => exact absurd ⟨hgate, hmode⟩ h
      | true => simp

end Raise

section Frame

variable {i : Word} {insn : Insn} {s : State} {d : BitVec 5} {v : BitVec 64}

/-- An effect on states that have a register written besides. -/
def Effect.withGpr (d : BitVec 5) (v : BitVec 64) : Effect → Effect
  | .next s => .next (s.setGpr d v)
  | .fault s => .fault (s.setGpr d v)
  | .stop => .stop

theorem raise_setGpr (code : BitVec 32) :
    raiseGeneral code (s.setGpr d v) = (raiseGeneral code s).setGpr d v := by
  have hexc : Iss.setExcPc (s.setGpr d v) = (Iss.setExcPc s).setGpr d v := by
    unfold Iss.setExcPc
    dsimp only
    split_ifs <;> first | rfl | contradiction
  unfold raiseGeneral
  rw [hexc]
  rfl

theorem write_setGpr {d' : BitVec 5} {v' : BitVec 64} (hne : d' ≠ d) :
    Iss.write (s.setGpr d v) d' v' = Effect.withGpr d v (Iss.write s d' v') := by
  have hcomm : Function.update (Function.update s.gpr d v) d' v' =
      Function.update (Function.update s.gpr d' v') d v := Function.update_comm hne.symm _ _ _
  show Effect.next { s with gpr := Function.update (Function.update s.gpr d v) d' v' } = _
  rw [hcomm]
  rfl

/-- An instruction does not see a register that it does not touch. -/
theorem immediate_setGpr (hint : integer insn = true) (hjump : jumps insn = false)
    (hsys : insn ≠ .syscall ∧ insn ≠ .brk)
    (hread : d ∉ sources insn i) (hwrite : dest insn i ≠ some d) :
    Iss.immediate i insn (s.setGpr d v) = Effect.withGpr d v (Iss.immediate i insn s) := by
  have hkeep {a : BitVec 5} (ha : ¬ d = a) : (s.setGpr d v).gpr a = s.gpr a :=
    Function.update_of_ne (Ne.symm ha) _ _
  cases insn
  case syscall => exact absurd rfl hsys.1
  case brk => exact absurd rfl hsys.2
  all_goals first | exact absurd hint (by decide) | exact absurd hjump (by decide) | skip
  all_goals
    simp only [sources, dest, List.mem_cons, List.not_mem_nil, or_false, not_or, ne_eq,
      Option.some.injEq, not_false_eq_true] at hread hwrite
    simp only [Iss.immediate, Iss.special, Iss.trapIf, Iss.div32, Iss.divu32, Iss.div64,
      Iss.divu64, hkeep, hread, not_false_eq_true]
    try split_ifs
  all_goals
    first
    | exact write_setGpr hwrite
    | exact congrArg Effect.fault (raise_setGpr _)
    | rfl

theorem plainEffect_setGpr (hint : integer (Iss.decode i) = true) (hjump : isJump i = false)
    (hsys : Iss.decode i ≠ .syscall ∧ Iss.decode i ≠ .brk) (htouch : ¬ Touches i d) :
    plainEffect i (s.setGpr d v) = Effect.withGpr d v (plainEffect i s) := by
  have hmode : Iss.in64bMode (s.setGpr d v) = Iss.in64bMode s := rfl
  unfold plainEffect
  rw [hmode]
  split
  case isTrue => exact congrArg Effect.fault (raise_setGpr 10)
  case isFalse =>
    exact immediate_setGpr hint hjump hsys (fun h => htouch (Or.inl h)) fun h => htouch (Or.inr h)

end Frame

section Decoded

variable {in64 : Bool} {p : Pred} {u : Uop} {i : Word}

theorem special_system {f : BitVec 6}
    (h : Iss.decodeSpecial f = .syscall ∨ Iss.decodeSpecial f = .brk) : f = 12 ∨ f = 13 := by
  unfold Iss.decodeSpecial at h
  split at h
  case h_9 hf => exact Or.inl (BitVec.eq_of_toNat_eq hf)
  case h_10 hf => exact Or.inr (BitVec.eq_of_toNat_eq hf)
  all_goals exact absurd h (by decide)

theorem regimm_not_system (rt : BitVec 5) :
    ¬ (Iss.decodeRegimm rt = .syscall ∨ Iss.decodeRegimm rt = .brk) := by
  unfold Iss.decodeRegimm
  split
  all_goals decide

theorem decoded_not_system (hdec : decode in64 p i = some u) :
    Iss.decode i ≠ .syscall ∧ Iss.decode i ≠ .brk := by
  have hop := decode_opcode_lt hdec
  rw [← not_or]
  intro h
  unfold Iss.decode at h
  split at h
  case h_1 hzero =>
    unfold decode at hdec
    rw [hzero] at hdec
    replace hdec : (if i.funct = 12 ∨ i.funct = 13 then none
        else some (decodeSpecial in64 p i)) = some u := hdec
    rw [if_pos (special_system h)] at hdec
    cases hdec
  case h_2 => exact regimm_not_system _ h
  all_goals first | exact absurd h (by decide) | omega

end Decoded

end Exec

end R9999
