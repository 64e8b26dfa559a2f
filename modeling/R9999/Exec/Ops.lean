import R9999.Exec.Units

/-!
# What an operation retires

How an operation at the head changes the registers, by the form of its completion, and what
the adders and shifters contribute to it.
-/

namespace R9999

namespace Exec

open Iss (Word lo32 sext32 sext64 flag addOverflows subOverflows)

/-- A write of a register, of which register zero takes none. -/
def Regs.put (r : Regs) (d : BitVec 5) (v : BitVec 64) : Regs :=
  if d = 0#5 then r else { r with gpr := Function.update r.gpr d v }

/-- A write of HI and LO. -/
def Regs.putHilo (r : Regs) (hi lo : BitVec 64) : Regs := { r with hi, lo }

theorem Regs.put_zero (r : Regs) (d : BitVec 5) (v : BitVec 64) (h0 : r.gpr 0#5 = 0) :
    (r.put d v).gpr 0#5 = 0 := by
  unfold Regs.put
  split
  case isTrue => exact h0
  case isFalse hd =>
    show Function.update r.gpr d v 0#5 = 0
    rw [Function.update_of_ne (Ne.symm hd), h0]

section Retire

variable {x : Junk} {u : Uop} {pc : BitVec 64} {r : Regs} {d : BitVec 5} {v : BitVec 64}

theorem retire_nop (h : u.op = .nop) : retire x u pc r = (r, none) := by
  simp [retire, completion, folds, h, Out.cause, Out.faulted, commit]

theorem retire_ii (h : u.op = .ii) : retire x u pc r = (r, some 10) := by
  simp [retire, completion, folds, h, Out.cause, Out.faulted]

theorem retire_value (h : completion x u pc r = Out.value pc v) :
    retire x u pc r = ({ r with gpr := Function.update r.gpr u.dst v }, none) := by
  simp [retire, h, Out.cause, Out.faulted, Out.value, Out.quiet, commit]

/-- An operation with a result, which is no operation without a destination. -/
theorem retire_put (hdst : u.dst = d) (hnop : d = 0#5 → u.op = .nop)
    (hval : d ≠ 0#5 → completion x u pc r = Out.value pc v) :
    retire x u pc r = (r.put d v, none) := by
  by_cases hd : d = 0#5
  · rw [retire_nop (hnop hd), Regs.put, if_pos hd]
  · rw [retire_value (hval hd), hdst, Regs.put, if_neg hd]

/-- An operation with a result that may overflow, which is still checked without a
destination. -/
theorem retire_checked {overflow : Bool} (hdst : u.dst = d)
    (hchk : d = 0#5 → completion x u pc r = Out.check pc overflow)
    (hval : d ≠ 0#5 → completion x u pc r = Out.checked pc overflow v) :
    retire x u pc r = if overflow then (r, some 12) else (r.put d v, none) := by
  by_cases hd : d = 0#5
  · cases overflow <;>
      simp [retire, hchk hd, Out.cause, Out.faulted, Out.check, Out.quiet, commit, Regs.put, hd]
  · cases overflow <;>
      simp [retire, hval hd, Out.cause, Out.faulted, Out.checked, Out.value, Out.quiet, commit,
        Regs.put, hd, hdst]

theorem retire_trapping {trap : Bool} (h : completion x u pc r = Out.trapping pc trap) :
    retire x u pc r = (r, if trap then some 13 else none) := by
  cases trap <;> simp [retire, h, Out.cause, Out.faulted, Out.trapping, Out.quiet, commit]

theorem retire_hilo {hi lo : BitVec 64} (hdst : u.hiloDstValid = true)
    (h : completion x u pc r = Out.hilo pc (hi ++ lo : BitVec (64 + 64))) :
    retire x u pc r = (r.putHilo hi lo, none) := by
  have hhi := append_hi hi lo
  have hlo := append_lo hi lo
  simp only [retire, h, Out.cause, Out.faulted, Out.hilo, Out.quiet, commit, hdst, Regs.putHilo]
  simp only [Bool.or_self, Bool.false_eq_true, if_false, Bool.and_self, if_true]
  rw [hhi, hlo]

end Retire

section Adders

variable {u : Uop} (a b : BitVec 64)

theorem lo32_add : lo32 (a + b) = lo32 a + lo32 b := BitVec.setWidth_add _ _ (by decide)

/-- The low word of the extended immediate. -/
theorem lo32_simm (imm : BitVec 16) : lo32 (imm.signExtend 64) = imm.signExtend 32 := by
  apply BitVec.eq_of_getLsbD_eq
  intro i hi
  have hi64 : i < 64 := by omega
  rw [lo32, BitVec.getLsbD_setWidth, BitVec.getLsbD_signExtend, BitVec.getLsbD_signExtend]
  simp only [hi, hi64, decide_true, Bool.true_and]

theorem addOverflows_comm {w : Nat} (a b : BitVec w) : addOverflows a b = addOverflows b a := by
  unfold addOverflows
  rw [BitVec.add_comm b a]
  cases (a + b).msb <;> cases a.msb <;> cases b.msb <;> rfl

theorem add32Overflow_regs (hs : subtracts32 u = false) (hi : immediate32 u = false) :
    add32Overflow u a b = addOverflows (lo32 a) (lo32 b) := by
  rw [add32Overflow, add32_regs u a b hs hi]
  simp only [ovfSrcB32, hi, Bool.false_eq_true, if_false]
  rfl

theorem add32Overflow_imm (hs : subtracts32 u = false) (hi : immediate32 u = true) :
    add32Overflow u a b = addOverflows (lo32 a) (u.imm.signExtend 32) := by
  rw [add32Overflow, add32_imm u a b hs hi]
  simp only [ovfSrcB32, hi, if_true]
  rfl

theorem sub32Overflow_eq (hs : subtracts32 u = true) (hi : immediate32 u = false) :
    sub32Overflow u a b = subOverflows (lo32 a) (lo32 b) := by
  rw [sub32Overflow, add32_sub u a b hs]
  simp only [ovfSrcB32, hi, Bool.false_eq_true, if_false]
  rfl

theorem add64Overflow_regs (hs : subtracts64 u = false) (hi : immediate64 u = false) :
    add64Overflow u a b = addOverflows a b := by
  rw [add64Overflow, add64_regs u a b hs hi]
  simp only [ovfSrcB64, hi, Bool.false_eq_true, if_false]
  rfl

theorem add64Overflow_imm (hs : subtracts64 u = false) (hi : immediate64 u = true) :
    add64Overflow u a b = addOverflows a (simm u) := by
  rw [add64Overflow, add64_imm u a b hs hi]
  simp only [ovfSrcB64, hi, if_true]
  rfl

theorem sub64Overflow_eq (hs : subtracts64 u = true) (hi : immediate64 u = false) :
    sub64Overflow u a b = subOverflows a b := by
  rw [sub64Overflow, add64_sub u a b hs]
  simp only [ovfSrcB64, hi, Bool.false_eq_true, if_false]
  rfl

theorem subOverflows_zero {w : Nat} (a : BitVec w) : subOverflows a 0#w = false := by
  simp [subOverflows]

theorem addOverflows_zero {w : Nat} (a : BitVec w) : addOverflows 0#w a = false := by
  simp [addOverflows]

/-- The negation of the least number is the one that overflows. -/
theorem negt_overflow (v : BitVec 32) : (v == 0x80000000#32) = subOverflows 0#32 v := by
  have hzero : (0#32).msb = false := by decide
  unfold subOverflows
  rw [hzero, Bool.eq_iff_iff]
  simp only [beq_iff_eq, Bool.and_eq_true, bne_iff_ne, ne_eq, Bool.not_eq_false,
    BitVec.msb_eq_decide, decide_eq_true_eq, eq_comm (a := false)]
  bv_omega

end Adders

section Forms

@[simp] theorem simm_word (u : Uop) : (simm u).setWidth 32 = u.imm.signExtend 32 :=
  lo32_simm u.imm

@[simp] theorem sext64_signExtend (imm : BitVec 16) :
    sext64 (imm.signExtend 32) = imm.signExtend 64 := by
  apply BitVec.eq_of_toInt_eq
  rw [sext64, BitVec.toInt_signExtend_of_le (by decide), BitVec.toInt_signExtend_of_le (by decide),
    BitVec.toInt_signExtend_of_le (by decide)]

@[simp] theorem signExtend32_eq (v : BitVec 32) : signExtend32 v = sext64 v := rfl

@[simp] theorem sext32_eq (v : BitVec 32) : sext32 v = sext64 v := rfl

@[simp] theorem sext64_zero : sext64 0#32 = 0#64 := by decide

@[simp] theorem lo32_zero : lo32 0#64 = 0#32 := by decide

@[simp] theorem checked_false (pc v : BitVec 64) : Out.checked pc false v = Out.value pc v := rfl

end Forms

end Exec

end R9999
