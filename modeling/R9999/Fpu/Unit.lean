import R9999.Fpu.Add
import R9999.Fpu.Compare
import R9999.Fpu.Divider
import R9999.Fpu.Mul

/-!
# The pipeline of the floating-point unit

`fpu.sv` with its adder, multiplier and comparator, in the configuration with MIPS IV
(`ENABLE_MIPS4`), which adds the multiply-adds; without it they do not come.  The unit has
`FPU_LAT` stages.  A multiply-add goes through twice: where its product leaves the multiplier
it goes in again at the head, as an operand of the adder.

`out_of_start` and `out_of_madd` say what leaves the unit for an operation that enters it while
no product comes back; `of_valid` says that nothing else does.
-/

open Hw (RoundMode)

namespace R9999.Fpu

/-- The opcodes of the unit, with the format.  `unimpl` is `FP_UNIMPL`, and the divides and
roots, which have no datapath here. -/
inductive FpuOp where
  | add (dbl : Bool)
  | sub (dbl : Bool)
  | mul (dbl : Bool)
  | cmp (dbl : Bool)
  | madd (dbl : Bool)
  | msub (dbl : Bool)
  | nmadd (dbl : Bool)
  | nmsub (dbl : Bool)
  | unimpl
  deriving DecidableEq, Repr

namespace FpuOp

/-- `is_madd`. -/
def isMadd : FpuOp → Bool
  | madd _ | msub _ | nmadd _ | nmsub _ => true
  | _ => false

/-- `madd_dbl`. -/
def maddDbl : FpuOp → Bool
  | madd d | msub d | nmadd d | nmsub d => d
  | _ => false

/-- `w_madd_neg`. -/
def maddNeg : FpuOp → Bool
  | nmadd _ | nmsub _ => true
  | _ => false

/-- `w_add_is_sub`, of the second pass. -/
def maddSub : FpuOp → Bool
  | msub _ | nmsub _ => true
  | _ => false

/-- `w_add_is_sub`, of an operation that comes in. -/
def isSub : FpuOp → Bool
  | sub _ => true
  | _ => false

/-- `w_add_is_double`, of an operation that comes in. -/
def addDbl : FpuOp → Bool
  | add d | sub d => d
  | _ => false

/-- `w_mul_is_double`. -/
def mulDbl : FpuOp → Bool
  | mul d | madd d | msub d | nmadd d | nmsub d => d
  | _ => false

/-- `w_cmp_fmt`. -/
def cmpDbl : FpuOp → Bool
  | cmp d => d
  | _ => false

/-- `w_is_cmp`. -/
def isCmp : FpuOp → Bool
  | cmp _ => true
  | _ => false

end FpuOp

/-- The inputs of one cycle. -/
structure FpuIn (R P F : Type*) where
  op : FpuOp
  start : Bool
  srcA : BitVec 64
  srcB : BitVec 64
  srcC : BitVec 64
  srcFcr : BitVec 8
  rm : RoundMode
  robPtr : R
  dstPtr : P
  fcrPtr : F
  fcrSel : BitVec 3
  cmpCond : BitVec 4

/-- The registers of one stage. -/
structure FpuStage (R P F : Type*) where
  val : Bool
  op : FpuOp
  ptr : P
  rob : R
  fcr : F
  fcrSel : BitVec 3
  fcrReg : BitVec 8
  /-- The second pass of a multiply-add. -/
  pass2 : Bool
  srcC : BitVec 64
  /-- `denorm` and the flags of the product. -/
  mDenorm : Bool
  mFlags : Fflags

/-- The registers of one stage of the comparator: `r_d` and `r_v`. -/
structure CmpStage where
  d : Bool
  v : Bool
  deriving DecidableEq

/-- The registers of the unit; stage 0 is the last. -/
structure FpuUnit (R P F : Type*) where
  r3 : FpuStage R P F
  r2 : FpuStage R P F
  r1 : FpuStage R P F
  r0 : FpuStage R P F
  add : Add
  mul : Mul
  c0 : CmpStage
  c1 : CmpStage
  c2 : CmpStage
  c3 : CmpStage

/-- `handle_fcr`: the vector of condition codes with bit `sel` replaced, the same in each case of
the source. -/
def handleFcr (b : Bool) (sel : BitVec 3) (fcrIn : BitVec 8) : BitVec 64 :=
  (fcrIn.extractLsb' (sel.toNat + 1) (7 - sel.toNat) ++ BitVec.ofBool b ++
    fcrIn.extractLsb' 0 sel.toNat).setWidth 64

theorem getLsbD_splice {m n : ℕ} (hi : BitVec m) (b : Bool) (lo : BitVec n) (j : ℕ) :
    (hi ++ BitVec.ofBool b ++ lo).getLsbD j =
      if j < n then lo.getLsbD j else if j = n then b else hi.getLsbD (j - n - 1) := by
  rw [BitVec.getLsbD_append, BitVec.getLsbD_append, BitVec.getLsbD_ofBool]
  by_cases h : j < n
  · simp only [if_pos h]
  · rcases Nat.lt_or_eq_of_le (Nat.le_of_not_lt h) with h' | rfl
    · have h1 : ¬ j - n < 1 := by omega
      have h2 : j ≠ n := by omega
      simp only [if_neg h, if_neg h1, if_neg h2]
    · simp

/-- One bit is that of the answer, the others are as they were. -/
theorem getLsbD_handleFcr (b : Bool) (sel : BitVec 3) (fcrIn : BitVec 8) {j : ℕ} (hj : j < 8) :
    ((handleFcr b sel fcrIn).setWidth 8).getLsbD j =
      if j = sel.toNat then b else fcrIn.getLsbD j := by
  have hs : sel.toNat < 8 := sel.isLt
  rw [handleFcr, BitVec.getLsbD_setWidth, BitVec.getLsbD_setWidth, getLsbD_splice,
    decide_eq_true hj, decide_eq_true (by omega : j < 64), Bool.true_and, Bool.true_and]
  rcases Nat.lt_trichotomy j sel.toNat with h | h | h
  · simp only [if_pos h, if_neg h.ne, BitVec.getLsbD_extractLsb', decide_eq_true h, Bool.true_and,
      Nat.zero_add]
  · simp [h]
  · have hk : sel.toNat + 1 + (j - sel.toNat - 1) = j := by omega
    simp only [if_neg h.asymm, if_neg h.ne', BitVec.getLsbD_extractLsb', hk,
      decide_eq_true (by omega : j - sel.toNat - 1 < 7 - sel.toNat), Bool.true_and]

/-- A single, or a double, of the other sign. -/
def flipSign (dbl : Bool) (y : BitVec 64) : BitVec 64 :=
  if dbl then BitVec.ofBool (!y.getLsbD 63) ++ y.extractLsb' 0 63
  else 0#32 ++ (BitVec.ofBool (!y.getLsbD 31) ++ y.extractLsb' 0 31)

namespace FpuUnit

variable {R P F : Type*} (u : FpuUnit R P F) (i : FpuIn R P F)

/-- `w_restart`: a product leaves the multiplier, and goes in again. -/
def restart : Bool := u.r0.val && u.r0.op.isMadd && !u.r0.pass2

/-- The operands of the adder. -/
def addIn : AddIn :=
  { sub := if u.restart then u.r0.op.maddSub else i.op.isSub
    a := if u.restart then u.mul.r4.y else i.srcA
    b := if u.restart then u.r0.srcC else i.srcB
    rm := i.rm
    fmt := if u.restart then u.r0.op.maddDbl else i.op.addDbl }

/-- The operands of the multiplier. -/
def mulIn : MulIn := ⟨i.srcA, i.srcB, i.rm, i.op.mulDbl⟩

/-- The operands of the comparator. -/
def cmpIn : CmpIn := ⟨i.srcA, i.srcB, i.cmpCond, i.op.cmpDbl⟩

/-- What enters the first stage. -/
def enter : FpuStage R P F :=
  { val := i.start || u.restart
    op := if u.restart then u.r0.op else i.op
    ptr := if u.restart then u.r0.ptr else i.dstPtr
    rob := if u.restart then u.r0.rob else i.robPtr
    fcr := i.fcrPtr
    fcrSel := i.fcrSel
    fcrReg := i.srcFcr
    pass2 := u.restart
    srcC := i.srcC
    mDenorm := u.mul.r4.denorm
    mFlags := u.mul.r4.fflags }

/-- A clock cycle. -/
def next : FpuUnit R P F :=
  { r3 := u.enter i, r2 := u.r3, r1 := u.r2, r0 := u.r1
    add := u.add.next (u.addIn i)
    mul := u.mul.next (mulIn i)
    c0 := ⟨Cmp.y (cmpIn i), Cmp.invalid (cmpIn i)⟩, c1 := u.c0, c2 := u.c1, c3 := u.c2 }

/-- After a reset nothing in the unit is valid. -/
def cleared : FpuUnit R P F :=
  { u with
    r3 := { u.r3 with val := false }, r2 := { u.r2 with val := false }
    r1 := { u.r1 with val := false }, r0 := { u.r0 with val := false } }

/-! ## The outputs -/

/-- `val`. -/
def val : Bool :=
  match u.r0.op with
  | .cmp _ => false
  | .madd _ | .msub _ | .nmadd _ | .nmsub _ => u.r0.val && u.r0.pass2
  | _ => u.r0.val

/-- `cmp_val`. -/
def cmpVal : Bool :=
  match u.r0.op with
  | .cmp _ => u.r0.val
  | _ => false

/-- `y`, `denorm` and `fflags`. -/
def out : Out :=
  match u.r0.op with
  | .add _ | .sub _ => u.add.r4
  | .mul _ => u.mul.r4
  | .cmp _ =>
    { y := handleFcr u.c3.d u.r0.fcrSel u.r0.fcrReg, denorm := false
      fflags := ⟨u.c3.v, false, false, false, false⟩ }
  | .unimpl => ⟨0, true, ⟨false, false, false, false, false⟩⟩
  | .madd _ | .msub _ | .nmadd _ | .nmsub _ =>
    { y := if u.r0.op.maddNeg then flipSign u.r0.op.maddDbl u.add.r4.y else u.add.r4.y
      denorm := u.add.r4.denorm || u.r0.mDenorm
      fflags := u.add.r4.fflags.or u.r0.mFlags }

/-- One cycle has one of the two. -/
theorem val_cmpVal : (u.val && u.cmpVal) = false := by
  rw [val, cmpVal]
  cases u.r0.op <;> simp

/-- The unit after some cycles. -/
def run (ins : ℕ → FpuIn R P F) : ℕ → FpuUnit R P F
  | 0 => u
  | n + 1 => (run ins n).next (ins n)

/-! ## What leaves the unit -/

/-- What an operation other than a multiply-add computes. -/
def result : Out :=
  match i.op with
  | .add _ | .sub _ => Add.result ⟨i.op.isSub, i.srcA, i.srcB, i.rm, i.op.addDbl⟩
  | .mul _ => Mul.result (mulIn i)
  | .cmp _ =>
    { y := handleFcr (Cmp.y (cmpIn i)) i.fcrSel i.srcFcr, denorm := false
      fflags := ⟨Cmp.invalid (cmpIn i), false, false, false, false⟩ }
  | _ => ⟨0, true, ⟨false, false, false, false, false⟩⟩

/-- What a multiply-add computes: the product, rounded, and the sum of that, rounded, with the
flags of both.  `rm` is the rounding mode of the sum. -/
def maddResult (rm : RoundMode) : Out :=
  let p := Mul.result (mulIn i)
  let s := Add.result ⟨i.op.maddSub, p.y, i.srcC, rm, i.op.maddDbl⟩
  { y := if i.op.maddNeg then flipSign i.op.maddDbl s.y else s.y
    denorm := s.denorm || p.denorm
    fflags := s.fflags.or p.fflags }

/-- **A multiply-add is a multiply and an add**: what the two instructions return. -/
theorem maddResult_eq (rm : RoundMode) (hm : i.op.isMadd = true) :
    let dbl := i.op.maddDbl
    let p := result { i with op := .mul dbl }
    let s := result { i with
      op := if i.op.maddSub then .sub dbl else .add dbl, srcA := p.y, srcB := i.srcC, rm }
    maddResult i rm =
      ⟨if i.op.maddNeg then flipSign dbl s.y else s.y, s.denorm || p.denorm,
        s.fflags.or p.fflags⟩ := by
  have hmul : (result { i with op := .mul i.op.maddDbl }) = Mul.result (mulIn i) := by
    cases hop : i.op <;> simp [FpuOp.isMadd, hop] at hm <;>
      simp only [result, mulIn, hop, FpuOp.mulDbl, FpuOp.maddDbl]
  have hadd (a b : BitVec 64) : (result { i with
      op := if i.op.maddSub then .sub i.op.maddDbl else .add i.op.maddDbl
      srcA := a, srcB := b, rm }) = Add.result ⟨i.op.maddSub, a, b, rm, i.op.maddDbl⟩ := by
    cases i.op.maddSub <;>
      simp only [result, Bool.false_eq_true, if_true, if_false, FpuOp.isSub, FpuOp.addDbl]
  simp only [hmul, hadd, maddResult]

section Run

variable {u : FpuUnit R P F} {ins : ℕ → FpuIn R P F} {t : ℕ}

/-- What has entered is in the last stage `FPU_LAT` cycles later. -/
theorem run_enter (u : FpuUnit R P F) (ins : ℕ → FpuIn R P F) (t : ℕ) :
    (u.run ins (t + 4)).r0 = (u.run ins t).enter (ins t) ∧
      (u.run ins (t + 4)).add.r4 = Add.result ((u.run ins t).addIn (ins t)) ∧
      (u.run ins (t + 4)).mul.r4 = Mul.result (mulIn (ins t)) ∧
      (u.run ins (t + 4)).c3 = ⟨Cmp.y (cmpIn (ins t)), Cmp.invalid (cmpIn (ins t))⟩ :=
  ⟨rfl, rfl, rfl, rfl⟩

/-- A product comes back for a multiply-add that entered, and for nothing else. -/
theorem restart_run (u : FpuUnit R P F) (ins : ℕ → FpuIn R P F) (t : ℕ) :
    (u.run ins (t + 4)).restart =
      ((ins t).start && (ins t).op.isMadd && !(u.run ins t).restart) := by
  rw [restart, (run_enter u ins t).1, enter]
  cases (u.run ins t).restart <;> simp

/-- An operation other than a multiply-add leaves with its result. -/
theorem out_of_start (hs : (ins t).start = true) (hr : (u.run ins t).restart = false)
    (hm : (ins t).op.isMadd = false) :
    (u.run ins (t + 4)).val = !(ins t).op.isCmp ∧ (u.run ins (t + 4)).cmpVal = (ins t).op.isCmp ∧
      (u.run ins (t + 4)).out = result (ins t) ∧ (u.run ins (t + 4)).r0.rob = (ins t).robPtr ∧
      (u.run ins (t + 4)).r0.ptr = (ins t).dstPtr ∧
      (u.run ins (t + 4)).r0.fcr = (ins t).fcrPtr := by
  obtain ⟨h0, hadd, hmul, hcmp⟩ := run_enter u ins t
  have henter : (u.run ins t).enter (ins t) =
      { val := true, op := (ins t).op, ptr := (ins t).dstPtr, rob := (ins t).robPtr
        fcr := (ins t).fcrPtr, fcrSel := (ins t).fcrSel, fcrReg := (ins t).srcFcr, pass2 := false
        srcC := (ins t).srcC, mDenorm := (u.run ins t).mul.r4.denorm
        mFlags := (u.run ins t).mul.r4.fflags } := by
    simp [enter, hs, hr]
  have haddIn : (u.run ins t).addIn (ins t) =
      ⟨(ins t).op.isSub, (ins t).srcA, (ins t).srcB, (ins t).rm, (ins t).op.addDbl⟩ := by
    simp [addIn, hr]
  rw [henter] at h0
  rw [haddIn] at hadd
  simp only [val, cmpVal, out, result, h0, hadd, hmul, hcmp]
  cases hop : (ins t).op <;> simp [FpuOp.isMadd, FpuOp.isCmp, hop] at hm ⊢

/-- **A multiply-add leaves with the rounded sum of its rounded product.** -/
theorem out_of_madd (hs : (ins t).start = true) (hr : (u.run ins t).restart = false)
    (hm : (ins t).op.isMadd = true) :
    (u.run ins (t + 4)).val = false ∧ (u.run ins (t + 4)).cmpVal = false ∧
      (u.run ins (t + 8)).val = true ∧ (u.run ins (t + 8)).cmpVal = false ∧
      (u.run ins (t + 8)).out = maddResult (ins t) (ins (t + 4)).rm ∧
      (u.run ins (t + 8)).r0.rob = (ins t).robPtr ∧
      (u.run ins (t + 8)).r0.ptr = (ins t).dstPtr := by
  obtain ⟨h0, -, hmul, -⟩ := run_enter u ins t
  obtain ⟨h0', hadd', -, -⟩ := run_enter u ins (t + 4)
  have hback : (u.run ins (t + 4)).restart = true := by rw [restart_run, hs, hr, hm]; rfl
  have hop : (u.run ins (t + 4)).r0.op = (ins t).op := by rw [h0, enter, hr]; rfl
  have hpass : (u.run ins (t + 4)).r0.pass2 = false := by rw [h0]; exact hr
  have henter : (u.run ins (t + 4)).enter (ins (t + 4)) =
      { val := true, op := (ins t).op, ptr := (ins t).dstPtr, rob := (ins t).robPtr
        fcr := (ins (t + 4)).fcrPtr, fcrSel := (ins (t + 4)).fcrSel
        fcrReg := (ins (t + 4)).srcFcr, pass2 := true, srcC := (ins (t + 4)).srcC
        mDenorm := (Mul.result (mulIn (ins t))).denorm
        mFlags := (Mul.result (mulIn (ins t))).fflags } := by
    simp [enter, hback, hmul, h0, hr]
  have haddIn : (u.run ins (t + 4)).addIn (ins (t + 4)) =
      ⟨(ins t).op.maddSub, (Mul.result (mulIn (ins t))).y, (ins t).srcC, (ins (t + 4)).rm,
        (ins t).op.maddDbl⟩ := by
    have hc : (u.run ins (t + 4)).r0.srcC = (ins t).srcC := by rw [h0]; rfl
    simp [addIn, hback, hop, hmul, hc]
  rw [henter] at h0'
  rw [haddIn] at hadd'
  refine ⟨?_, ?_, ?_, ?_, ?_, by rw [h0'], by rw [h0']⟩
  · rw [val, hop, hpass]
    cases h : (ins t).op <;> simp [FpuOp.isMadd, h] at hm ⊢
  · rw [cmpVal, hop]
    cases h : (ins t).op <;> simp [FpuOp.isMadd, h] at hm ⊢
  · rw [val, h0']
    cases h : (ins t).op <;> simp [FpuOp.isMadd, h] at hm ⊢
  · rw [cmpVal, h0']
    cases h : (ins t).op <;> simp [FpuOp.isMadd, h] at hm ⊢
  · rw [out, h0', hadd', maddResult]
    cases h : (ins t).op <;> simp [FpuOp.isMadd, h] at hm ⊢

/-- **Nothing else leaves the unit** than an operation that started, or the second pass of a
multiply-add. -/
theorem of_valid (hv : ((u.run ins (t + 4)).val || (u.run ins (t + 4)).cmpVal) = true) :
    (u.run ins t).restart = true ∧ (u.run ins (t + 4)).cmpVal = false ∨
      (u.run ins t).restart = false ∧ (ins t).start = true ∧ (ins t).op.isMadd = false := by
  have h0 := (run_enter u ins t).1
  cases hr : (u.run ins t).restart with
  | true =>
    refine .inl ⟨rfl, ?_⟩
    have hop : (u.run ins (t + 4)).r0.op = (u.run ins t).r0.op := by rw [h0, enter, hr]; rfl
    have hmadd : (u.run ins t).r0.op.isMadd = true := by
      rw [restart, Bool.and_eq_true, Bool.and_eq_true] at hr
      exact hr.1.2
    rw [cmpVal, hop]
    cases h : (u.run ins t).r0.op <;> simp [FpuOp.isMadd, h] at hmadd ⊢
  | false =>
    have hop : (u.run ins (t + 4)).r0.op = (ins t).op := by rw [h0, enter, hr]; rfl
    have hval : (u.run ins (t + 4)).r0.val = (ins t).start := by rw [h0, enter, hr]; simp
    have hpass : (u.run ins (t + 4)).r0.pass2 = false := by rw [h0]; exact hr
    rw [val, cmpVal, hop, hval, hpass] at hv
    refine .inr ⟨rfl, ?_⟩
    cases h : (ins t).op <;> simp [FpuOp.isMadd, h] at hv ⊢ <;> exact hv

end Run

end FpuUnit

end R9999.Fpu
