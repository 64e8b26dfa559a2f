import R9999.Issue.PortsLaw

/-!
# The condition codes

What a compare does to the condition codes, from its issue to the register it writes.  The
answer of the comparator is the order of the numbers (`Fpu.compares`), it goes into one bit of a
copy of the codes of the source register (`Fpu.getLsbD_handleFcr`), and the slots of the unit
carry it to the register that the compare has for itself (`Ports.fcrPrf_eq`), whatever else is in
the pipeline.
-/

namespace R9999

namespace Issue

open Fpu (FpuUnit FpuIn FpuOp CmpIn)

/-- Bit `sel` of the codes is that of the answer, and the others are as they were. -/
def OneBit (new old : BitVec 8) (sel : BitVec 3) (answer : Bool) : Prop :=
  ∀ j < 8, new.getLsbD j = if j = sel.toNat then answer else old.getLsbD j

section Unit

variable {R P F : Type*} {u : FpuUnit R P F} {is : ℕ → FpuIn R P F} {t : ℕ}

/-- A compare leaves the unit four cycles after it has started. -/
theorem started_of_cmpVal (h : (u.run is (t + 4)).cmpVal = true) :
    (u.run is t).restart = false ∧ (is t).start = true ∧ (is t).op.isMadd = false ∧
      (is t).op.isCmp = true := by
  have hv : ((u.run is (t + 4)).val || (u.run is (t + 4)).cmpVal) = true := by
    rw [h, Bool.or_true]
  rcases FpuUnit.of_valid hv with ⟨-, hno⟩ | ⟨hr, hs, hm⟩
  · rw [h] at hno
    exact Bool.noConfusion hno
  · have hc := (FpuUnit.out_of_start hs hr hm).2.1
    exact ⟨hr, hs, hm, hc.symm.trans h⟩

/-- What a compare computes. -/
theorem result_of_cmp {i : FpuIn R P F} (h : i.op.isCmp = true) :
    FpuUnit.result i =
      ⟨Fpu.handleFcr (Fpu.Cmp.y (FpuUnit.cmpIn i)) i.fcrSel i.srcFcr, false,
        ⟨Fpu.Cmp.invalid (FpuUnit.cmpIn i), false, false, false, false⟩⟩ := by
  unfold FpuUnit.result
  cases hop : i.op <;> rw [hop] at h <;> first | rfl | exact absurd h Bool.false_ne_true

end Unit

namespace Ports

variable {R H P F X : Type*} [DecidableEq H] [DecidableEq P] [DecidableEq F]

/-- What holds of the compares. -/
structure CompareLaw (m : Ports R H P F X) (ins : ℕ → PortsIn R H P F X) : Prop where
  /-- The comparator answers the order of the numbers. -/
  compares : ∀ i : CmpIn, Fpu.Compares i (Fpu.Cmp.y i) (Fpu.Cmp.invalid i)
  less : ∀ i : CmpIn, Fpu.Cmp.ordLt i = true ↔ Fpu.Less i
  equal : ∀ i : CmpIn, Fpu.Cmp.ordEq i = true ↔ Fpu.Equal i
  unordered : ∀ i : CmpIn, Fpu.Cmp.unordered i = true ↔ Fpu.Unordered i
  one_answer : ∀ i : CmpIn,
    (Fpu.Less i ∧ ¬ Fpu.Equal i ∧ ¬ Fpu.Greater i ∧ ¬ Fpu.Unordered i) ∨
    (¬ Fpu.Less i ∧ Fpu.Equal i ∧ ¬ Fpu.Greater i ∧ ¬ Fpu.Unordered i) ∨
    (¬ Fpu.Less i ∧ ¬ Fpu.Equal i ∧ Fpu.Greater i ∧ ¬ Fpu.Unordered i) ∨
    (¬ Fpu.Less i ∧ ¬ Fpu.Equal i ∧ ¬ Fpu.Greater i ∧ Fpu.Unordered i)
  /-- The unit puts the answer into one bit, for any stream of operations. -/
  unit : ∀ (u : FpuUnit R P F) (is : ℕ → FpuIn R P F) (t : ℕ),
    (u.run is (t + 4)).cmpVal = true →
      (u.run is (t + 4)).r0.fcr = (is t).fcrPtr ∧
      (u.run is (t + 4)).out.fflags =
        ⟨Fpu.Cmp.invalid (FpuUnit.cmpIn (is t)), false, false, false, false⟩ ∧
      OneBit ((u.run is (t + 4)).out.y.setWidth 8) (is t).srcFcr (is t).fcrSel
        (Fpu.Cmp.y (FpuUnit.cmpIn (is t)))
  /-- Every compare that is issued writes the codes of its source register, but for one bit, into
  its own register. -/
  written : ∀ s dbl, m.pops ins s = true → (ins s).fpUq.kind = .unit (.cmp dbl) →
    let u := (ins s).fpUq
    let i : CmpIn := ⟨u.srcA, u.srcB, u.imm.extractLsb' 3 4, dbl⟩
    OneBit ((m.run ins (s + 6)).fcrPrf u.hiloDst) ((m.run ins s).fcrPrf u.hiloSrc)
        (u.imm.extractLsb' 0 3) (Fpu.Cmp.y i) ∧
      (m.run ins (s + 6)).completeValid2 = true ∧
      (m.run ins (s + 6)).bundle2.robPtr = u.robPtr ∧
      (m.run ins (s + 6)).bundle2.out.fflags = ⟨Fpu.Cmp.invalid i, false, false, false, false⟩
  /-- And nothing else does. -/
  writes : ∀ t, (m.run ins t).fpu.cmpVal = true → ∃ s dbl, s + 5 = t ∧ m.pops ins s = true ∧
    (ins s).fpUq.kind = .unit (.cmp dbl) ∧ (m.run ins t).fpu.r0.fcr = (ins s).fpUq.hiloDst

/-- **A compare is the order of the numbers**, and writes one condition code. -/
theorem compare_law (m : Ports R H P F X) (ins : ℕ → PortsIn R H P F X) : CompareLaw m ins where
  compares := Fpu.compares
  less := Fpu.less_iff
  equal := Fpu.equal_iff
  unordered := Fpu.unordered_iff
  one_answer := Fpu.one_answer
  unit u is t h := by
    obtain ⟨hr, hs, hm, hc⟩ := started_of_cmpVal h
    obtain ⟨-, -, hout, -, -, hfcr⟩ := FpuUnit.out_of_start hs hr hm
    rw [result_of_cmp hc] at hout
    rw [hout, hfcr]
    exact ⟨rfl, rfl, fun j hj => Fpu.getLsbD_handleFcr _ _ _ hj⟩
  written s dbl hp hk := by
    have hends := fp_ends hp (by rw [hk]; rfl)
    have hval : m.fpValue ins s (s + (ins s).fpUq.kind.wbDist) =
        FpuUnit.result ((ins s).fpUq.fpuIn true ((m.run ins s).fcrPrf (ins s).fpUq.hiloSrc)
          (ins (s + 1)).rm) := by
      simp only [fpValue, hk, fpResult, FpuOp.isMadd, Bool.false_eq_true, if_false]
    have hop : ((ins s).fpUq.fpuIn true ((m.run ins s).fcrPrf (ins s).fpUq.hiloSrc)
        (ins (s + 1)).rm).op = .cmp dbl := fpuIn_op hk
    have hin : FpuUnit.cmpIn ((ins s).fpUq.fpuIn true ((m.run ins s).fcrPrf (ins s).fpUq.hiloSrc)
        (ins (s + 1)).rm) =
          ⟨(ins s).fpUq.srcA, (ins s).fpUq.srcB, (ins s).fpUq.imm.extractLsb' 3 4, dbl⟩ := by
      rw [FpuUnit.cmpIn, hop]
      rfl
    rw [result_of_cmp (by rw [hop]; rfl), hin] at hval
    have hfcr := fcrPrf_eq hends (by rw [hk]; rfl)
    have hb := bundle2_eq hends
    have hvalid := (completeValid2_iff m ins _).2 ⟨s, hends⟩
    have hdist : s + (ins s).fpUq.kind.wbDist + 1 = s + 6 := by rw [hk]; rfl
    rw [hval, hdist] at hfcr hb
    rw [hdist] at hvalid
    refine ⟨fun j hj => ?_, hvalid, by rw [hb], by rw [hb]⟩
    rw [hfcr]
    exact Fpu.getLsbD_handleFcr _ _ _ hj
  writes t h := by
    have hv : ((m.run ins t).fpu.val || (m.run ins t).fpu.cmpVal) = true := by
      rw [h, Bool.or_true]
    obtain ⟨s, op, hp, hk, rfl⟩ := fpu_done hv
    have hl := leaves_of_pops hp hk
    have hc : op.isCmp = true := hl.cmpVal.symm.trans h
    cases op with
    | cmp dbl => exact ⟨s, dbl, by rw [hk]; rfl, hp, hk, hl.fcr rfl⟩
    | _ => exact absurd hc Bool.false_ne_true

end Ports

end Issue

end R9999
