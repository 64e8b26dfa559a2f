import Mathlib.Tactic.SplitIfs
import R9999.Exec.Ops

/-!
# The instructions without a delay slot

What each of them retires, for every word and all registers.  Register zero holds zero, so
that the operations which the decoder rewrites for it come to the same as the ones they
stand for.
-/

namespace R9999

namespace Exec

open Iss (Word lo32 sext32 sext64 flag addOverflows subOverflows)

variable {x : Junk} {pc : BitVec 64} {r : Regs} (i : Word)

attribute [local simp] completion folds exec operandA operandB operandHilo

section Shifts

@[simp] theorem sa_mod : i.sa.toNat % 32 = i.sa.toNat := Nat.mod_eq_of_lt i.sa.isLt

theorem retire_sll (h0 : r.gpr 0#5 = 0) :
    retire x (shiftImm .sll i) pc r =
      (r.put i.rd (sext32 (lo32 (r.gpr i.rt) <<< i.sa.toNat)), none) := by
  refine retire_put rfl (fun hd => by simp [shiftImm, hd]) fun hd => ?_
  by_cases ht : i.rt = 0#5
  · simp [shiftImm, hd, ht, h0]
  · simp [shiftImm, hd, ht, shift32_left]

theorem retire_srl (h0 : r.gpr 0#5 = 0) :
    retire x (shiftImm .srl i) pc r =
      (r.put i.rd (sext64 (lo32 (r.gpr i.rt) >>> i.sa.toNat)), none) := by
  refine retire_put rfl (fun hd => by simp [shiftImm, hd]) fun hd => ?_
  by_cases ht : i.rt = 0#5
  · simp [shiftImm, hd, ht, h0]
  · simp [shiftImm, hd, ht, shift32_right]

theorem retire_sra (h0 : r.gpr 0#5 = 0) :
    retire x (shiftImm .sra i) pc r =
      (r.put i.rd (sext32 ((lo32 (r.gpr i.rt)).sshiftRight i.sa.toNat)), none) := by
  refine retire_put rfl (fun hd => by simp [shiftImm, hd]) fun hd => ?_
  by_cases ht : i.rt = 0#5
  · simp [shiftImm, hd, ht, h0]
  · simp [shiftImm, hd, ht, shift32_signed]

/-- An operation on two registers that is none without a destination. -/
theorem retire_twoReg {op : Op} {a b d : BitVec 5} {v : BitVec 64}
    (h : d ≠ 0#5 → completion x (twoReg op .nop a b d) pc r = Out.value pc v) :
    retire x (twoReg op .nop a b d) pc r = (r.put d v, none) :=
  retire_put rfl (fun hd => by simp [twoReg, hd]) h

/-- An operation on one register that is none without a destination. -/
theorem retire_oneReg {op : Op} {a d : BitVec 5} {imm : BitVec 16} {v : BitVec 64}
    (h : d ≠ 0#5 → completion x (oneReg op .nop a d imm) pc r = Out.value pc v) :
    retire x (oneReg op .nop a d imm) pc r = (r.put d v, none) :=
  retire_put rfl (fun hd => by simp [oneReg, hd]) h

/-- The low bits of a shift amount, as a mask has them. -/
theorem and_31 (n : Nat) : n &&& 31 = n % 32 := Nat.and_two_pow_sub_one_eq_mod n 5

theorem and_63 (n : Nat) : n &&& 63 = n % 64 := Nat.and_two_pow_sub_one_eq_mod n 6

theorem retire_sllv :
    retire x (rtRs .sllv i .nop) pc r =
      (r.put i.rd (sext64 (lo32 (r.gpr i.rt) <<< (r.gpr i.rs &&& 0x1f).toNat)), none) := by
  refine retire_twoReg fun hd => ?_
  simp [twoReg, hd, shift32_left, and_31]

theorem retire_srlv :
    retire x (rtRs .srlv i .nop) pc r =
      (r.put i.rd (sext64 (lo32 (r.gpr i.rt) >>> (r.gpr i.rs &&& 0x1f).toNat)), none) := by
  refine retire_twoReg fun hd => ?_
  simp [twoReg, hd, shift32_right, and_31]

theorem retire_srav :
    retire x (rtRs .srav i .nop) pc r =
      (r.put i.rd (sext32 ((lo32 (r.gpr i.rt)).sshiftRight (r.gpr i.rs &&& 0x1f).toNat)),
        none) := by
  refine retire_twoReg fun hd => ?_
  simp [twoReg, hd, shift32_signed, and_31]

theorem retire_dsllv :
    retire x (rtRs .dsllv i .nop) pc r =
      (r.put i.rd (r.gpr i.rt <<< (r.gpr i.rs &&& 63).toNat), none) := by
  refine retire_twoReg fun hd => ?_
  simp [twoReg, hd, shiftRight_left, and_63]

theorem retire_dsrlv :
    retire x (rtRs .dsrlv i .nop) pc r =
      (r.put i.rd (r.gpr i.rt >>> (r.gpr i.rs &&& 63).toNat), none) := by
  refine retire_twoReg fun hd => ?_
  simp [twoReg, hd, shiftRight_right, and_63]

theorem retire_dsrav :
    retire x (rtRs .dsrav i .nop) pc r =
      (r.put i.rd ((r.gpr i.rt).sshiftRight (r.gpr i.rs &&& 63).toNat), none) := by
  refine retire_twoReg fun hd => ?_
  simp [twoReg, hd, shiftRight_signed, and_63]

@[simp] theorem extract_shamt : (i.sa.setWidth 16).extractLsb' 0 5 = i.sa := by
  apply BitVec.eq_of_toNat_eq
  have hsa := i.sa.isLt
  rw [BitVec.extractLsb'_toNat, Nat.shiftRight_zero, BitVec.toNat_setWidth]
  omega

/-- The amount of a 64-bit shift by an immediate. -/
@[simp] theorem zero_append_sa : (0#1 ++ i.sa : BitVec (1 + 5)).toNat = i.sa.toNat := by
  rw [BitVec.toNat_append]
  simp

@[simp] theorem one_append_sa : (1#1 ++ i.sa : BitVec (1 + 5)).toNat = i.sa.toNat + 32 := by
  rw [BitVec.toNat_append, ← Nat.shiftLeft_add_eq_or_of_lt i.sa.isLt]
  exact Nat.add_comm 32 i.sa.toNat

theorem retire_dshiftImm {op : Op} {v : BitVec 64}
    (h : i.rd ≠ 0#5 → completion x (dshiftImm op i) pc r = Out.value pc v) :
    retire x (dshiftImm op i) pc r = (r.put i.rd v, none) :=
  retire_oneReg h

theorem retire_dsll :
    retire x (dshiftImm .dsll i) pc r = (r.put i.rd (r.gpr i.rt <<< i.sa.toNat), none) := by
  refine retire_dshiftImm i fun hd => ?_
  simp [dshiftImm, oneReg, hd, shiftRight_left]

theorem retire_dsrl :
    retire x (dshiftImm .dsrl i) pc r = (r.put i.rd (r.gpr i.rt >>> i.sa.toNat), none) := by
  refine retire_dshiftImm i fun hd => ?_
  simp [dshiftImm, oneReg, hd, shiftRight_right]

theorem retire_dsra :
    retire x (dshiftImm .dsra i) pc r =
      (r.put i.rd ((r.gpr i.rt).sshiftRight i.sa.toNat), none) := by
  refine retire_dshiftImm i fun hd => ?_
  simp [dshiftImm, oneReg, hd, shiftRight_signed]

theorem retire_dsll32 :
    retire x (dshiftImm .dsll32 i) pc r =
      (r.put i.rd (r.gpr i.rt <<< (i.sa.toNat + 32)), none) := by
  refine retire_dshiftImm i fun hd => ?_
  simp [dshiftImm, oneReg, hd, shiftRight_left]

theorem retire_dsrl32 :
    retire x (dshiftImm .dsrl32 i) pc r =
      (r.put i.rd (r.gpr i.rt >>> (i.sa.toNat + 32)), none) := by
  refine retire_dshiftImm i fun hd => ?_
  simp [dshiftImm, oneReg, hd, shiftRight_right]

theorem retire_dsra32 :
    retire x (dshiftImm .dsra32 i) pc r =
      (r.put i.rd ((r.gpr i.rt).sshiftRight (i.sa.toNat + 32)), none) := by
  refine retire_dshiftImm i fun hd => ?_
  simp [dshiftImm, oneReg, hd, shiftRight_signed]

end Shifts

section Hilo

theorem retire_mfhi : retire x (fromHilo .mfhi i) pc r = (r.put i.rd r.hi, none) := by
  refine retire_put rfl (fun hd => by simp [fromHilo, hd]) fun hd => ?_
  simp [fromHilo, hd, append_hi]

theorem retire_mflo : retire x (fromHilo .mflo i) pc r = (r.put i.rd r.lo, none) := by
  refine retire_put rfl (fun hd => by simp [fromHilo, hd]) fun hd => ?_
  simp [fromHilo, hd, append_lo]

theorem retire_mthi : retire x (toHilo .mthi i) pc r = (r.putHilo (r.gpr i.rs) r.lo, none) := by
  refine retire_hilo rfl ?_
  simp [toHilo, append_lo]

theorem retire_mtlo : retire x (toHilo .mtlo i) pc r = (r.putHilo r.hi (r.gpr i.rs), none) := by
  refine retire_hilo rfl ?_
  simp [toHilo, append_hi]

/-- HI and LO from the words of a 64-bit product. -/
def Regs.putProduct (r : Regs) (y : BitVec 64) : Regs :=
  r.putHilo (sext64 ((y >>> 32).setWidth 32)) (sext64 (y.setWidth 32))

/-- HI and LO from the halves of a product. -/
def Regs.putWide (r : Regs) (y : BitVec 128) : Regs :=
  r.putHilo (y.extractLsb' 64 64) (y.extractLsb' 0 64)

/-- A multiply or a divide, by what its unit gives. -/
theorem retire_mulDiv {op : Op} {hi lo : BitVec 64}
    (h : completion x (mulDiv op i) pc r = Out.hilo pc (hi ++ lo : BitVec (64 + 64))) :
    retire x (mulDiv op i) pc r = (r.putHilo hi lo, none) :=
  retire_hilo rfl h

theorem retire_mult :
    retire x (mulDiv .mult i) pc r = (r.putProduct (r.gpr i.rs * r.gpr i.rt), none) := by
  refine retire_mulDiv i ?_
  simp [mulDiv, mulY_mult, wordPair]

theorem retire_multu :
    retire x (mulDiv .multu i) pc r =
      (r.putProduct ((lo32 (r.gpr i.rs)).setWidth 64 * (lo32 (r.gpr i.rt)).setWidth 64),
        none) := by
  refine retire_mulDiv i ?_
  simp [mulDiv, mulY_multu, wordPair]

/-- A double word is its halves. -/
theorem halves_append (y : BitVec 128) :
    (y.extractLsb' 64 64 ++ y.extractLsb' 0 64 : BitVec (64 + 64)) = y := by
  apply BitVec.eq_of_getLsbD_eq
  intro i hi
  rw [BitVec.getLsbD_append]
  by_cases h : i < 64
  · simp [h]
  · have hsub : i - 64 < 64 := by omega
    have hadd : 64 + (i - 64) = i := by omega
    simp [h, hsub, hadd]

theorem retire_dmult :
    retire x (mulDiv .dmult i) pc r =
      (r.putWide ((r.gpr i.rs).signExtend 128 * (r.gpr i.rt).signExtend 128), none) := by
  refine retire_mulDiv i ?_
  simp [mulDiv, mulY, halves_append]

theorem retire_dmultu :
    retire x (mulDiv .dmultu i) pc r =
      (r.putWide ((r.gpr i.rs).setWidth 128 * (r.gpr i.rt).setWidth 128), none) := by
  refine retire_mulDiv i ?_
  simp [mulDiv, mulY, halves_append]

theorem retire_div (hb : lo32 (r.gpr i.rt) ≠ 0) :
    retire x (mulDiv .div i) pc r =
      (r.putHilo
        (sext64 (lo32 (((lo32 (r.gpr i.rs)).signExtend 64).srem
          ((lo32 (r.gpr i.rt)).signExtend 64))))
        (sext64 (lo32 (((lo32 (r.gpr i.rs)).signExtend 64).sdiv
          ((lo32 (r.gpr i.rt)).signExtend 64)))), none) := by
  refine retire_mulDiv i ?_
  simp [mulDiv, divide_div _ _ hb]

theorem retire_divu (hb : lo32 (r.gpr i.rt) ≠ 0) :
    retire x (mulDiv .divu i) pc r =
      (r.putHilo (sext64 (lo32 (r.gpr i.rs) % lo32 (r.gpr i.rt)))
        (sext64 (lo32 (r.gpr i.rs) / lo32 (r.gpr i.rt))), none) := by
  refine retire_mulDiv i ?_
  simp [mulDiv, divide_divu _ _ hb]

theorem retire_ddiv (hb : r.gpr i.rt ≠ 0) :
    retire x (mulDiv .ddiv i) pc r =
      (r.putHilo ((r.gpr i.rs).srem (r.gpr i.rt)) ((r.gpr i.rs).sdiv (r.gpr i.rt)), none) := by
  refine retire_mulDiv i ?_
  simp [mulDiv, divide_ddiv _ _ hb]

theorem retire_ddivu (hb : r.gpr i.rt ≠ 0) :
    retire x (mulDiv .ddivu i) pc r =
      (r.putHilo (r.gpr i.rs % r.gpr i.rt) (r.gpr i.rs / r.gpr i.rt), none) := by
  refine retire_mulDiv i ?_
  simp [mulDiv, divide_ddivu _ _ hb]

end Hilo

section Adders

theorem retire_add :
    retire x (rtRs .add i .addchk) pc r =
      if addOverflows (lo32 (r.gpr i.rs)) (lo32 (r.gpr i.rt)) then (r, some 12)
      else (r.put i.rd (sext64 (lo32 (r.gpr i.rs) + lo32 (r.gpr i.rt))), none) := by
  rw [addOverflows_comm, BitVec.add_comm]
  refine retire_checked rfl (fun hd => ?_) fun hd => ?_
  · simp [rtRs, twoReg, hd, add32Overflow_regs, subtracts32, immediate32]
  · simp [rtRs, twoReg, hd, add32Overflow_regs, add32_regs, subtracts32, immediate32]

theorem retire_addu (h0 : r.gpr 0#5 = 0) :
    retire x (foldZero .addu i 0 .sll) pc r =
      (r.put i.rd (sext64 (lo32 (r.gpr i.rs) + lo32 (r.gpr i.rt))), none) := by
  unfold foldZero
  split_ifs with hboth hone
  · refine retire_put rfl (fun hd => by simp [constant, hd]) fun hd => ?_
    simp [constant, hd, hboth, h0]
  · refine retire_oneReg fun hd => ?_
    by_cases hs : i.rs = 0#5
    · simp [oneReg, hd, hs, h0, shift32_left]
    · have ht : i.rt = 0#5 := hone.resolve_left hs
      simp [oneReg, hd, hs, ht, h0, shift32_left]
  · refine retire_twoReg fun hd => ?_
    simp [twoReg, hd, add32_regs, subtracts32, immediate32, BitVec.add_comm]

theorem retire_sub (h0 : r.gpr 0#5 = 0) :
    retire x (decodeSub i) pc r =
      if subOverflows (lo32 (r.gpr i.rs)) (lo32 (r.gpr i.rt)) then (r, some 12)
      else (r.put i.rd (sext64 (lo32 (r.gpr i.rs) - lo32 (r.gpr i.rt))), none) := by
  refine retire_checked ?_ (fun hd => ?_) fun hd => ?_
  · unfold decodeSub
    split <;> simp [*]
  · simp [decodeSub, hd, sub32Overflow_eq, subtracts32, immediate32]
  · by_cases hs : i.rs = 0#5
    · by_cases ht : i.rt = 0#5
      · simp [decodeSub, hd, hs, ht, h0, subOverflows_zero]
      · have hneg : ((r.gpr i.rt).setWidth 32 == 0x80000000#32) =
            subOverflows 0#32 ((r.gpr i.rt).setWidth 32) := negt_overflow _
        simp [decodeSub, hd, hs, ht, h0, hneg, lo32]
    · by_cases ht : i.rt = 0#5
      · simp [decodeSub, hd, hs, ht, h0, shift32_left, subOverflows_zero]
      · simp [decodeSub, hd, hs, ht, sub32Overflow_eq, add32_sub, subtracts32, immediate32]

theorem retire_subu (h0 : r.gpr 0#5 = 0) :
    retire x (decodeSubu i) pc r =
      (r.put i.rd (sext64 (lo32 (r.gpr i.rs) - lo32 (r.gpr i.rt))), none) := by
  refine retire_put rfl (fun hd => by simp [decodeSubu, hd]) fun hd => ?_
  by_cases hs : i.rs = 0#5
  · by_cases ht : i.rt = 0#5
    · simp [decodeSubu, hd, hs, ht, h0]
    · simp [decodeSubu, hd, hs, ht, h0, lo32]
  · by_cases ht : i.rt = 0#5
    · simp [decodeSubu, hd, hs, ht, h0, shift32_left]
    · simp [decodeSubu, hd, hs, ht, add32_sub, subtracts32]

theorem retire_dadd :
    retire x (rtRs .dadd i .daddchk) pc r =
      if addOverflows (r.gpr i.rs) (r.gpr i.rt) then (r, some 12)
      else (r.put i.rd (r.gpr i.rs + r.gpr i.rt), none) := by
  rw [addOverflows_comm, BitVec.add_comm]
  refine retire_checked rfl (fun hd => ?_) fun hd => ?_
  · simp [rtRs, twoReg, hd, add64Overflow_regs, subtracts64, immediate64]
  · simp [rtRs, twoReg, hd, add64Overflow_regs, add64_regs, subtracts64, immediate64]

theorem retire_daddu (h0 : r.gpr 0#5 = 0) :
    retire x (foldZero .daddu i 0 .mov) pc r =
      (r.put i.rd (r.gpr i.rs + r.gpr i.rt), none) := by
  unfold foldZero
  split_ifs with hboth hone
  · refine retire_put rfl (fun hd => by simp [constant, hd]) fun hd => ?_
    simp [constant, hd, hboth, h0]
  · refine retire_oneReg fun hd => ?_
    by_cases hs : i.rs = 0#5
    · simp [oneReg, hd, hs, h0]
    · have ht : i.rt = 0#5 := hone.resolve_left hs
      simp [oneReg, hd, hs, ht, h0]
  · refine retire_twoReg fun hd => ?_
    simp [twoReg, hd, add64_regs, subtracts64, immediate64, BitVec.add_comm]

theorem retire_dsub :
    retire x (rsRt .dsub i .dsubchk) pc r =
      if subOverflows (r.gpr i.rs) (r.gpr i.rt) then (r, some 12)
      else (r.put i.rd (r.gpr i.rs - r.gpr i.rt), none) := by
  refine retire_checked rfl (fun hd => ?_) fun hd => ?_
  · simp [rsRt, twoReg, hd, sub64Overflow_eq, subtracts64, immediate64]
  · simp [rsRt, twoReg, hd, sub64Overflow_eq, add64_sub, subtracts64, immediate64]

theorem retire_dsubu :
    retire x (rsRt .dsubu i .nop) pc r = (r.put i.rd (r.gpr i.rs - r.gpr i.rt), none) := by
  refine retire_twoReg fun hd => ?_
  simp [twoReg, hd, add64_sub, subtracts64]

end Adders

section Logic

theorem retire_and (h0 : r.gpr 0#5 = 0) :
    retire x (decodeAnd i) pc r = (r.put i.rd (r.gpr i.rs &&& r.gpr i.rt), none) := by
  unfold decodeAnd
  split_ifs with hone
  · refine retire_put rfl (fun hd => by simp [constant, hd]) fun hd => ?_
    rcases hone with hs | ht
    · simp [constant, hd, hs, h0]
    · simp [constant, hd, ht, h0]
  · refine retire_twoReg fun hd => ?_
    simp [twoReg, hd, BitVec.and_comm]

theorem retire_or (h0 : r.gpr 0#5 = 0) :
    retire x (decodeOr i) pc r = (r.put i.rd (r.gpr i.rs ||| r.gpr i.rt), none) := by
  unfold decodeOr
  by_cases hs : i.rs = 0#5
  · rw [if_pos hs]
    refine retire_put rfl (fun hd => by simp [hd]) fun hd => ?_
    by_cases ht : i.rt = 0#5
    · simp [hd, hs, ht, h0]
    · simp [hd, hs, ht, h0]
  · rw [if_neg hs]
    by_cases ht : i.rt = 0#5
    · rw [if_pos ht]
      refine retire_oneReg fun hd => ?_
      simp [oneReg, hd, ht, h0]
    · rw [if_neg ht]
      refine retire_twoReg fun hd => ?_
      simp [twoReg, hd, BitVec.or_comm]

theorem retire_xor (h0 : r.gpr 0#5 = 0) :
    retire x (foldZero .xor i 0 .mov) pc r =
      (r.put i.rd (r.gpr i.rs ^^^ r.gpr i.rt), none) := by
  unfold foldZero
  split_ifs with hboth hone
  · refine retire_put rfl (fun hd => by simp [constant, hd]) fun hd => ?_
    simp [constant, hd, hboth, h0]
  · refine retire_oneReg fun hd => ?_
    by_cases hs : i.rs = 0#5
    · simp [oneReg, hd, hs, h0]
    · have ht : i.rt = 0#5 := hone.resolve_left hs
      simp [oneReg, hd, hs, ht, h0]
  · refine retire_twoReg fun hd => ?_
    simp [twoReg, hd, BitVec.xor_comm]

theorem retire_nor (h0 : r.gpr 0#5 = 0) :
    retire x (foldZero .nor i 0xffff .not) pc r =
      (r.put i.rd (~~~(r.gpr i.rs ||| r.gpr i.rt)), none) := by
  unfold foldZero
  split_ifs with hboth hone
  · refine retire_put rfl (fun hd => by simp [constant, hd]) fun hd => ?_
    simp [constant, hd, hboth, h0, sext64]
  · refine retire_oneReg fun hd => ?_
    by_cases hs : i.rs = 0#5
    · simp [oneReg, hd, hs, h0]
    · have ht : i.rt = 0#5 := hone.resolve_left hs
      simp [oneReg, hd, hs, ht, h0]
  · refine retire_twoReg fun hd => ?_
    simp [twoReg, hd, BitVec.or_comm]

theorem ule_zero (a : BitVec 64) : a.ule 0#64 = (a == 0#64) := by
  rw [Bool.eq_iff_iff, beq_iff_eq, BitVec.ule_eq_decide, decide_eq_true_eq]
  bv_omega

theorem zero_ult (a : BitVec 64) : (0#64).ult a = (a != 0#64) := by
  rw [Bool.eq_iff_iff, bne_iff_ne, BitVec.ult_eq_decide, decide_eq_true_eq]
  bv_omega

theorem ult_zero (a : BitVec 64) : a.ult 0#64 = false := by simp [BitVec.ult_eq_decide]

theorem oneIf_eq (b : Bool) : oneIf b = flag b := rfl

theorem retire_slt (h0 : r.gpr 0#5 = 0) :
    retire x (decodeSlt i) pc r =
      (r.put i.rd (flag ((r.gpr i.rs).slt (r.gpr i.rt))), none) := by
  refine retire_put rfl (fun hd => by simp [decodeSlt, hd]) fun hd => ?_
  by_cases hs : i.rs = 0#5
  · by_cases ht : i.rt = 0#5
    · simp [decodeSlt, hd, hs, ht, h0, flag]
    · simp [decodeSlt, hd, hs, ht, h0, oneIf_eq]
  · by_cases ht : i.rt = 0#5
    · simp [decodeSlt, hd, hs, ht, h0, oneIf_eq]
    · simp [decodeSlt, hd, hs, ht, oneIf_eq]

theorem retire_sltu (h0 : r.gpr 0#5 = 0) :
    retire x (decodeSltu i) pc r =
      (r.put i.rd (flag ((r.gpr i.rs).ult (r.gpr i.rt))), none) := by
  refine retire_put rfl (fun hd => by simp [decodeSltu, hd]) fun hd => ?_
  by_cases ht : i.rt = 0#5
  · simp [decodeSltu, hd, ht, h0, flag, ult_zero]
  · by_cases hs : i.rs = 0#5
    · simp [decodeSltu, hd, hs, ht, h0, oneIf_eq, zero_ult]
    · simp [decodeSltu, hd, hs, ht, oneIf_eq]

end Logic

section Traps

/-- What a trap does. -/
def trapTo (r : Regs) (b : Bool) : Regs × Option (BitVec 5) := (r, if b then some 13 else none)

theorem retire_trapRegs {op : Op} {b : Bool}
    (h : completion x (trapRegs op i) pc r = Out.trapping pc b) :
    retire x (trapRegs op i) pc r = trapTo r b :=
  retire_trapping h

theorem retire_tge :
    retire x (trapRegs .tge i) pc r = trapTo r ((r.gpr i.rt).sle (r.gpr i.rs)) := by
  refine retire_trapRegs i ?_
  simp [trapRegs, trapB]

theorem retire_tlt :
    retire x (trapRegs .tlt i) pc r = trapTo r ((r.gpr i.rs).slt (r.gpr i.rt)) := by
  refine retire_trapRegs i ?_
  simp [trapRegs, trapB]

theorem retire_tgeu (h0 : r.gpr 0#5 = 0) :
    retire x (decodeTgeu i) pc r = trapTo r ((r.gpr i.rt).ule (r.gpr i.rs)) := by
  unfold decodeTgeu
  by_cases hs : i.rs = 0#5 ∧ i.rt ≠ 0#5
  · rw [if_pos hs]
    refine retire_trapping ?_
    simp [trapZero, hs.1, h0, ule_zero]
  · rw [if_neg hs]
    refine retire_trapRegs i ?_
    simp [trapRegs, trapB]

theorem retire_tltu (h0 : r.gpr 0#5 = 0) :
    retire x (decodeTltu i) pc r = trapTo r ((r.gpr i.rs).ult (r.gpr i.rt)) := by
  unfold decodeTltu
  by_cases ht : i.rt = 0#5
  · rw [if_pos ht, retire_nop rfl]
    simp [trapTo, ht, h0, ult_zero]
  · rw [if_neg ht]
    by_cases hs : i.rs = 0#5
    · rw [if_pos hs]
      refine retire_trapping ?_
      simp [trapZero, hs, h0, zero_ult]
    · rw [if_neg hs]
      refine retire_trapRegs i ?_
      simp [trapRegs, trapB]

theorem retire_teq (h0 : r.gpr 0#5 = 0) :
    retire x (trapEq .teq i .teqz) pc r = trapTo r (r.gpr i.rs == r.gpr i.rt) := by
  have hcomm : (r.gpr i.rs == r.gpr i.rt) = (r.gpr i.rt == r.gpr i.rs) := BEq.comm
  refine retire_trapping ?_
  by_cases ht : i.rt = 0#5
  · by_cases hs : i.rs = 0#5
    · simp [trapEq, trapB, hs, ht, h0]
    · simp [trapEq, hs, ht, h0]
  · rw [hcomm]
    by_cases hs : i.rs = 0#5
    · simp [trapEq, hs, ht, h0]
    · simp [trapEq, trapB, hs, ht]

theorem retire_tne (h0 : r.gpr 0#5 = 0) :
    retire x (trapEq .tne i .tnez) pc r = trapTo r (r.gpr i.rs != r.gpr i.rt) := by
  have hcomm : (r.gpr i.rs != r.gpr i.rt) = (r.gpr i.rt != r.gpr i.rs) := bne_comm
  refine retire_trapping ?_
  by_cases ht : i.rt = 0#5
  · by_cases hs : i.rs = 0#5
    · simp [trapEq, trapB, hs, ht, h0]
    · simp [trapEq, hs, ht, h0]
  · rw [hcomm]
    by_cases hs : i.rs = 0#5
    · simp [trapEq, hs, ht, h0]
    · simp [trapEq, trapB, hs, ht]

variable (p : Pred)

theorem retire_tgei :
    retire x (trapImm .tge i p) pc r = trapTo r (i.simm.sle (r.gpr i.rs)) := by
  refine retire_trapping ?_
  simp [trapImm, branch1, trapB, simm, Word.simm]

theorem retire_tgeiu :
    retire x (trapImm .tgeu i p) pc r = trapTo r (i.simm.ule (r.gpr i.rs)) := by
  refine retire_trapping ?_
  simp [trapImm, branch1, trapB, simm, Word.simm]

theorem retire_tlti :
    retire x (trapImm .tlt i p) pc r = trapTo r ((r.gpr i.rs).slt i.simm) := by
  refine retire_trapping ?_
  simp [trapImm, branch1, trapB, simm, Word.simm]

theorem retire_tltiu :
    retire x (trapImm .tltu i p) pc r = trapTo r ((r.gpr i.rs).ult i.simm) := by
  refine retire_trapping ?_
  simp [trapImm, branch1, trapB, simm, Word.simm]

theorem retire_teqi :
    retire x (trapImm .teq i p) pc r = trapTo r (r.gpr i.rs == i.simm) := by
  refine retire_trapping ?_
  simp [trapImm, branch1, trapB, simm, Word.simm]

theorem retire_tnei :
    retire x (trapImm .tne i p) pc r = trapTo r (r.gpr i.rs != i.simm) := by
  refine retire_trapping ?_
  simp [trapImm, branch1, trapB, simm, Word.simm]

end Traps

section Immediates

theorem retire_addi (h0 : r.gpr 0#5 = 0) :
    retire x (decodeAddi i) pc r =
      if addOverflows (lo32 (r.gpr i.rs)) (lo32 i.simm) then (r, some 12)
      else (r.put i.rt (sext64 (lo32 (r.gpr i.rs) + lo32 i.simm)), none) := by
  have himm : lo32 i.simm = (immOf i).signExtend 32 := lo32_simm (immOf i)
  rw [himm]
  by_cases hs : i.rs = 0#5
  · have hover : addOverflows (lo32 (r.gpr i.rs)) ((immOf i).signExtend 32) = false := by
      rw [hs, h0]
      exact addOverflows_zero _
    rw [hover]
    refine retire_put rfl (fun hd => by simp [decodeAddi, hd, hs]) fun hd => ?_
    simp [decodeAddi, hd, hs, h0]
  · refine retire_checked rfl (fun hd => ?_) fun hd => ?_
    · simp [decodeAddi, hd, hs, add32Overflow_imm, subtracts32, immediate32]
    · simp [decodeAddi, hd, hs, add32Overflow_imm, add32_imm, subtracts32, immediate32]

theorem retire_addiu (h0 : r.gpr 0#5 = 0) :
    retire x (decodeAddiu i) pc r =
      (r.put i.rt (sext32 (lo32 (r.gpr i.rs + i.simm))), none) := by
  have himm : lo32 i.simm = (immOf i).signExtend 32 := lo32_simm (immOf i)
  rw [lo32_add, himm]
  unfold decodeAddiu
  by_cases hs : i.rs = 0#5
  · rw [if_pos hs]
    refine retire_put rfl (fun hd => by simp [constant, hd]) fun hd => ?_
    simp [constant, hd, hs, h0]
  · rw [if_neg hs]
    refine retire_oneReg fun hd => ?_
    simp [oneReg, hd, add32_imm, subtracts32, immediate32]

theorem retire_slti :
    retire x (immOp .slti i .nop) pc r = (r.put i.rt (flag ((r.gpr i.rs).slt i.simm)), none) := by
  refine retire_oneReg fun hd => ?_
  simp [oneReg, hd, oneIf_eq, simm, Word.simm]

theorem retire_sltiu :
    retire x (immOp .sltiu i .nop) pc r =
      (r.put i.rt (flag ((r.gpr i.rs).ult i.simm)), none) := by
  refine retire_oneReg fun hd => ?_
  simp [oneReg, hd, oneIf_eq, simm, Word.simm]

theorem retire_andi (h0 : r.gpr 0#5 = 0) :
    retire x (logicImm .andi i .movi (if i.rs = 0#5 then 0 else immOf i)) pc r =
      (r.put i.rt (r.gpr i.rs &&& i.uimm), none) := by
  refine retire_put rfl (fun hd => by simp [logicImm, hd]) fun hd => ?_
  by_cases hs : i.rs = 0#5
  · simp [logicImm, hd, hs, h0]
  · simp [logicImm, hd, hs, zimm, Word.uimm]

theorem retire_ori (h0 : r.gpr 0#5 = 0) :
    retire x (logicImm .ori i .moviu (immOf i)) pc r =
      (r.put i.rt (r.gpr i.rs ||| i.uimm), none) := by
  refine retire_put rfl (fun hd => by simp [logicImm, hd]) fun hd => ?_
  by_cases hs : i.rs = 0#5
  · simp [logicImm, hd, hs, h0, zimm, Word.uimm]
  · simp [logicImm, hd, hs, zimm, Word.uimm]

theorem retire_xori (h0 : r.gpr 0#5 = 0) :
    retire x (logicImm .xori i .moviu (immOf i)) pc r =
      (r.put i.rt (r.gpr i.rs ^^^ i.uimm), none) := by
  refine retire_put rfl (fun hd => by simp [logicImm, hd]) fun hd => ?_
  by_cases hs : i.rs = 0#5
  · simp [logicImm, hd, hs, h0, zimm, Word.uimm]
  · simp [logicImm, hd, hs, zimm, Word.uimm]

/-- The immediate in the upper half of a word. -/
theorem lui_eq (imm : BitVec 16) :
    (imm ++ (0 : BitVec 16) : BitVec (16 + 16)) = lo32 (imm.setWidth 64) <<< 16 := by
  apply BitVec.eq_of_getLsbD_eq
  intro i hi
  rw [BitVec.getLsbD_append, BitVec.getLsbD_shiftLeft, lo32, BitVec.getLsbD_setWidth,
    BitVec.getLsbD_setWidth]
  by_cases h : i < 16
  · simp [h]
  · have hsub : i - 16 < 32 := by omega
    have hsub64 : i - 16 < 64 := by omega
    simp [h, hi, hsub, hsub64]

theorem retire_lui :
    retire x (decodeLui i) pc r = (r.put i.rt (sext64 (lo32 i.uimm <<< 16)), none) := by
  refine retire_put rfl (fun hd => by simp [decodeLui, hd]) fun hd => ?_
  have hlui := lui_eq (immOf i)
  simp [decodeLui, hd, Word.uimm, ← hlui]

theorem retire_daddi :
    retire x (immOp .daddi i .daddichk) pc r =
      if addOverflows (r.gpr i.rs) i.simm then (r, some 12)
      else (r.put i.rt (r.gpr i.rs + i.simm), none) := by
  refine retire_checked rfl (fun hd => ?_) fun hd => ?_
  · simp [immOp, oneReg, hd, add64Overflow_imm, subtracts64, immediate64, simm, Word.simm]
  · simp [immOp, oneReg, hd, add64Overflow_imm, add64_imm, subtracts64, immediate64, simm,
      Word.simm]

theorem retire_daddiu :
    retire x (immOp .daddiu i .nop) pc r = (r.put i.rt (r.gpr i.rs + i.simm), none) := by
  refine retire_oneReg fun hd => ?_
  simp [oneReg, hd, add64_imm, subtracts64, immediate64, simm, Word.simm]

end Immediates

end Exec

end R9999
