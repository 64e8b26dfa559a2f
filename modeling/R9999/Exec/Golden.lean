import Mathlib.Tactic.SplitIfs
import R9999.Exec.Plain
import R9999.Iss.Exec

/-!
# The interpreter's integer instructions

What an instruction without a delay slot does in the interpreter, in the registers that the
datapath has.  It either ends with the pc as it was, for `execMips` to advance, or with an
exception that it has just raised.
-/

namespace R9999

namespace Exec

open Iss (Word State Effect lo32 sext32 sext64 flag raiseGeneral setExcPc Cpr0 srExl srBev)

/-- The registers of an interpreter's state, which keeps register zero only from fetch to
fetch. -/
def regs (s : State) : Regs where
  gpr := s.gpr
  hi := s.hi
  lo := s.lo

/-- The registers that the next instruction finds. -/
def settled (s : State) : Regs := regs (s.setGpr 0 0)

/-- Cause.ExcCode. -/
def excCode (s : State) : BitVec 5 := (s.cpr0 Cpr0.cause).extractLsb' 2 5

/-- An effect as registers and an exception, unless it ends the program. -/
def retired : Effect → Option (Regs × Option (BitVec 5))
  | .next s => some (settled s, none)
  | .fault s => some (settled s, some (excCode s))
  | .stop => none

section Raise

variable (s : State) (code : BitVec 32)

theorem setCpr0_self (r : Cpr0) (v : BitVec 32) : (s.setCpr0 r v).cpr0 r = v := by
  simp [State.setCpr0]

theorem setCpr0_ne {r r' : Cpr0} (h : r' ≠ r) (v : BitVec 32) :
    (s.setCpr0 r v).cpr0 r' = s.cpr0 r' := by
  simp [State.setCpr0, h]

theorem setCpr0Both_ne {r r' : Cpr0} (h : r' ≠ r) (v : BitVec 64) :
    (s.setCpr0Both r v).cpr0 r' = s.cpr0 r' := by
  simp [State.setCpr0Both, h]

theorem setExcPc_regs : regs (setExcPc s) = regs s := by
  unfold setExcPc
  dsimp only
  split_ifs <;> rfl

theorem setExcPc_sr : (setExcPc s).cpr0 Cpr0.sr = s.cpr0 Cpr0.sr := by
  have hne : Cpr0.sr ≠ Cpr0.epc ∧ Cpr0.sr ≠ Cpr0.cause := by decide
  unfold setExcPc
  dsimp only
  split_ifs
  · rfl
  all_goals rw [setCpr0_ne _ hne.2, setCpr0Both_ne _ hne.1]

theorem raise_regs : regs (raiseGeneral code s) = regs s := setExcPc_regs s

theorem raise_settled (h0 : s.gpr 0#5 = 0) : settled (raiseGeneral code s) = regs s := by
  have hgpr : (raiseGeneral code s).gpr = s.gpr := congrArg Regs.gpr (raise_regs s code)
  have hclear : Function.update (raiseGeneral code s).gpr 0#5 0 = (raiseGeneral code s).gpr := by
    rw [hgpr]
    exact Function.update_eq_self_iff.mpr h0.symm
  calc settled (raiseGeneral code s)
      = { regs (raiseGeneral code s) with
          gpr := Function.update (raiseGeneral code s).gpr 0#5 0 } := rfl
    _ = regs (raiseGeneral code s) := by rw [hclear]; rfl
    _ = regs s := raise_regs s code

/-- Status after an exception. -/
theorem raise_sr : (raiseGeneral code s).cpr0 Cpr0.sr =
    ((s.cpr0 Cpr0.sr &&& ~~~Iss.srErl) ||| srExl) := by
  have hne : Cpr0.sr ≠ Cpr0.cause := by decide
  show ((setExcPc s).enterException code).cpr0 Cpr0.sr = _
  unfold State.enterException
  dsimp only
  rw [setCpr0_self, setCpr0_ne _ hne, setExcPc_sr]

theorem raise_exl : (raiseGeneral code s).srHas srExl = true := by
  unfold State.srHas
  rw [raise_sr, bne_iff_ne]
  intro h
  have hbit := congrArg (BitVec.getLsbD · 1) h
  simp at hbit

theorem raise_bev : (raiseGeneral code s).srHas srBev = s.srHas srBev := by
  have hsame (v : BitVec 32) : ((v &&& ~~~Iss.srErl) ||| srExl) &&& srBev = v &&& srBev := by
    have herl : ~~~Iss.srErl &&& srBev = srBev := by decide
    have hexl : srExl &&& srBev = 0#32 := by decide
    rw [BitVec.and_or_distrib_right, BitVec.and_assoc, herl, hexl, BitVec.or_zero]
  unfold State.srHas
  rw [raise_sr, hsame]

/-- The general vector, as the core restarts at it. -/
theorem raise_pc : (raiseGeneral code s).pc = generalVector (s.cpr0 Cpr0.sr) := by
  have hbev : ((setExcPc s).enterException code).srHas srBev = s.srHas srBev := raise_bev s code
  show Iss.sext32 (Iss.vectorBase ((setExcPc s).enterException code) ||| 0x180) = _
  unfold Iss.vectorBase
  rw [hbev]
  rfl

theorem raise_excCode : excCode (raiseGeneral code s) = code.extractLsb' 0 5 := by
  have hne : Cpr0.cause ≠ Cpr0.sr := by decide
  have hcause : (raiseGeneral code s).cpr0 Cpr0.cause =
      (((setExcPc s).cpr0 Cpr0.cause &&& ~~~Iss.causeExcCode) ||| (code <<< 2)) := by
    show ((setExcPc s).enterException code).cpr0 Cpr0.cause = _
    unfold State.enterException
    dsimp only
    rw [setCpr0_ne _ hne, setCpr0_self]
  unfold excCode
  rw [hcause]
  apply BitVec.eq_of_getLsbD_eq
  intro i hi
  have hmask : (~~~Iss.causeExcCode).getLsbD (2 + i) = false := by
    have h : ∀ j < 5, (~~~Iss.causeExcCode).getLsbD (2 + j) = false := by decide
    exact h i hi
  have hin : 2 + i < 32 := by omega
  have hge : 1 < 2 + i := by omega
  rw [BitVec.getLsbD_extractLsb', BitVec.getLsbD_extractLsb', BitVec.getLsbD_or,
    BitVec.getLsbD_and, hmask, BitVec.getLsbD_shiftLeft]
  simp [hi, hin, hge]

/-- What an exception retires. -/
theorem raise_retired (h0 : s.gpr 0#5 = 0) :
    retired (.fault (raiseGeneral code s)) = some (regs s, some (code.extractLsb' 0 5)) := by
  rw [retired, raise_settled s code h0, raise_excCode]

end Raise

section Write

variable {s : State}

theorem settled_of_zero (h0 : s.gpr 0#5 = 0) : settled s = regs s := by
  have hclear : Function.update s.gpr 0#5 0 = s.gpr := Function.update_eq_self_iff.mpr h0.symm
  show (⟨Function.update s.gpr 0#5 0, s.hi, s.lo⟩ : Regs) = _
  rw [hclear]
  rfl

theorem settled_setGpr (h0 : s.gpr 0#5 = 0) (d : BitVec 5) (v : BitVec 64) :
    settled (s.setGpr d v) = (regs s).put d v := by
  show (⟨Function.update (Function.update s.gpr d v) 0#5 0, s.hi, s.lo⟩ : Regs) = _
  unfold Regs.put
  split
  case isTrue hd =>
    rw [hd, Function.update_idem]
    exact settled_of_zero h0
  case isFalse hd =>
    have hkeep : Function.update (Function.update s.gpr d v) 0#5 0 = Function.update s.gpr d v := by
      rw [Function.update_eq_self_iff, Function.update_of_ne (Ne.symm hd), h0]
    rw [hkeep]
    rfl

theorem write_retired (h0 : s.gpr 0#5 = 0) (d : BitVec 5) (v : BitVec 64) :
    retired (Iss.write s d v) = some ((regs s).put d v, none) := by
  rw [Iss.write, retired, settled_setGpr h0]

theorem setHiLo_retired (h0 : s.gpr 0#5 = 0) (hi lo : BitVec 64) :
    retired (.next (Iss.setHiLo s hi lo)) = some ((regs s).putHilo hi lo, none) := by
  have hsettled : settled (Iss.setHiLo s hi lo) = regs (Iss.setHiLo s hi lo) :=
    settled_of_zero (s := Iss.setHiLo s hi lo) h0
  rw [retired, hsettled]
  rfl

theorem next_retired (h0 : s.gpr 0#5 = 0) : retired (.next s) = some (regs s, none) := by
  rw [retired, settled_of_zero h0]

/-- A trap. -/
theorem trapIf_retired (h0 : s.gpr 0#5 = 0) (b : Bool) :
    retired (Iss.trapIf s b) = some (trapTo (regs s) b) := by
  cases b with
  | false => exact next_retired h0
  | true => exact raise_retired s 13 h0

/-- An addition or subtraction that may overflow. -/
theorem checked_retired (h0 : s.gpr 0#5 = 0) (b : Bool) (d : BitVec 5) (v : BitVec 64) :
    retired (if b then .fault (Iss.raiseOverflow s) else Iss.write s d v) =
      some (if b then (regs s, some 12) else ((regs s).put d v, none)) := by
  cases b with
  | false => exact write_retired h0 d v
  | true => exact raise_retired s 12 h0

end Write

end Exec

end R9999
