import R9999.Exec.Divider
import R9999.Fpu.DivLaw

/-!
# The divider as one unit

`uni_divider.sv` whole: one machine and one set of recurrence registers for the integer
divides and the floating-point divides and roots, with `flush`, which abandons an operation.

Seen from either side the unit is the divider of that side (`intSide_next`, `fpSide_next`), so
that what those compute is what this one does.  The pointers that go along with an operation
are of any type.
-/

open Hw (RoundMode)

namespace R9999

namespace Exec

open Fpu (DivReq DivIn FpDivider Fflags Sig Out)

/-- `state_t`. -/
inductive UniState where
  | idle | iter | intPack | intWaitwb | fpNorm | fpRound | fpWaitwb | fpRsqrt2
  deriving DecidableEq, Repr

/-- An operation that waits for its slot. -/
def UniState.Waits (s : UniState) : Prop := s = .intWaitwb ∨ s = .fpWaitwb

instance (s : UniState) : Decidable s.Waits := inferInstanceAs (Decidable (_ ∨ _))

/-- An integer divide: the ports that go with `start_div`. -/
structure IntReq (R H : Type*) where
  srcA : BitVec 64
  srcB : BitVec 64
  is32b : Bool
  isSignedDiv : Bool
  robPtr : R
  hiloPrfPtr : H

/-- A floating-point operation: the ports that go with `fp_start`. -/
structure FpReq (R P : Type*) where
  req : DivReq
  robPtr : R
  dstPtr : P

/-- The inputs of one cycle. -/
structure UniIn (R H P : Type*) where
  /-- `start_div`. -/
  start : Option (IntReq R H)
  /-- `fp_start`. -/
  fpStart : Option (FpReq R P)
  flush : Bool
  wbSlotUsed : Bool
  fpWbSlotUsed : Bool

/-- The registers of the unit. -/
structure UniDivider (R H P : Type*) where
  state : UniState
  rem : BitVec 66
  q : BitVec 64
  opb : BitVec 64
  src : BitVec 64
  cnt : BitVec 6
  last : BitVec 6
  isFp : Bool
  isSqrt : Bool
  robPtr : R
  hiloPrfPtr : H
  isSigned : Bool
  sign : Bool
  remSign : Bool
  is32b : Bool
  fpDst : P
  rm : RoundMode
  fmt : Bool
  fpSign : Bool
  ebase : ℤ
  special : Bool
  earlyY : BitVec 64
  inv : Bool
  dz : Bool
  inden : Bool
  rsqrt : Bool
  ph1Denorm : Bool
  ph1 : Fflags
  sig : Sig
  fpY : BitVec 64
  fpFflags : Fflags
  fpDenorm : Bool

/-- A cycle of the integer divider, cut short by `flush` while it iterates. -/
def Divider.nextOrCut (d : Divider) (flush wbSlotUsed : Bool) : Divider :=
  if flush && d.state = .iter then { d.next wbSlotUsed with state := .intWaitwb }
  else d.next wbSlotUsed

namespace UniDivider

variable {R H P : Type*} (u : UniDivider R H P) (i : UniIn R H P)

/-! ## The recurrence -/

/-- `w_rhs`. -/
def rhs : BitVec 66 :=
  if u.isSqrt then (u.q.setWidth 56 ++ 1#2).setWidth 66 else u.opb.setWidth 66

/-- `w_diff`. -/
def diff : BitVec 67 := u.rem.setWidth 67 - u.rhs.setWidth 67

/-- `w_bit`. -/
def bit : Bool := !u.diff.msb

/-- `w_sel`. -/
def sel : BitVec 66 := if u.bit then u.diff.setWidth 66 else u.rem

/-- `n_q`, `n_cnt` and `n_src` of a step. -/
def iterate : UniDivider R H P :=
  { u with
    q := (u.q.setWidth 63).concat u.bit
    cnt := u.cnt + 1
    src := if u.isSqrt then u.src.setWidth 62 ++ 0#2 else (u.src.setWidth 63).concat false }

/-- `n_rem` of a step that is not the last. -/
def shifted : BitVec 66 :=
  if u.isSqrt then u.sel.setWidth 64 ++ u.src.extractLsb' 62 2
  else (u.sel.setWidth 65).concat u.src.msb

/-! ## The two sides -/

/-- The unit as the integer divide sees it. -/
def intSide : Divider :=
  { state :=
      match u.state with
      | .iter => .iter
      | .intPack => .intPack
      | .intWaitwb => .intWaitwb
      | _ => .idle
    rem := u.rem, q := u.q, opb := u.opb, src := u.src, cnt := u.cnt, last := u.last
    isSigned := u.isSigned, sign := u.sign, remSign := u.remSign, is32b := u.is32b }

/-- The unit as a floating-point operation sees it. -/
def fpSide : FpDivider :=
  { state :=
      match u.state with
      | .iter => .iter
      | .fpNorm => .fpNorm
      | .fpRound => .fpRound
      | .fpWaitwb => .fpWaitwb
      | .fpRsqrt2 => .fpRsqrt2
      | _ => .idle
    rem := u.rem.toNat, q := u.q.toNat, opb := u.opb.toNat, src := u.src.toNat
    cnt := u.cnt.toNat, last := u.last.toNat, isSqrt := u.isSqrt, rm := u.rm, fmt := u.fmt
    sign := u.fpSign, ebase := u.ebase, special := u.special, earlyY := u.earlyY, inv := u.inv
    dz := u.dz, inden := u.inden, rsqrt := u.rsqrt, ph1Denorm := u.ph1Denorm, ph1 := u.ph1
    sig := u.sig, y := u.fpY, fflags := u.fpFflags, denorm := u.fpDenorm }

/-! ## The machine -/

/-- The start of an integer divide. -/
def loadInt (r : IntReq R H) : UniDivider R H P :=
  let d := Divider.start r.srcA r.srcB r.is32b r.isSignedDiv
  { u with
    state := .iter, isFp := false, isSqrt := false
    robPtr := r.robPtr, hiloPrfPtr := r.hiloPrfPtr
    rem := d.rem, q := d.q, opb := d.opb, src := d.src, cnt := d.cnt, last := d.last
    isSigned := d.isSigned, sign := d.sign, remSign := d.remSign, is32b := d.is32b }

/-- A pass of a floating-point operation enters the recurrence, or goes on to the last stage
without it. -/
def loadFp (isSqrt fmt : Bool) (a b : BitVec 64) (flush : Bool) : UniDivider R H P :=
  { u with
    state :=
      if flush then .fpWaitwb
      else if Fpu.opEarly isSqrt fmt a b || Fpu.divDenorm isSqrt fmt a b then .fpRound else .iter
    cnt := 0
    q := 0
    isSqrt
    fpSign := Fpu.divSign isSqrt fmt a b
    special := Fpu.opEarly isSqrt fmt a b || Fpu.divDenorm isSqrt fmt a b
    earlyY := Fpu.opEarlyY isSqrt fmt a b
    inv := Fpu.opInv isSqrt fmt a b
    dz := Fpu.opDz isSqrt fmt a b
    inden := Fpu.divDenorm isSqrt fmt a b
    ebase := Fpu.opEbase isSqrt fmt a b
    opb := BitVec.ofNat 64 (Fpu.sig fmt b)
    rem := BitVec.ofNat 66 (if isSqrt then Fpu.rad fmt a / 2 ^ 108 else Fpu.sig fmt a)
    src := BitVec.ofNat 64 (if isSqrt then Fpu.rad fmt a / 2 ^ 44 else 0)
    last := BitVec.ofNat 6 (Fpu.lastStep isSqrt fmt) }

/-- A clock cycle.  The integer side has priority. -/
def next : UniDivider R H P :=
  match u.state with
  | .idle =>
    match i.start, i.fpStart with
    | some r, _ => u.loadInt r
    | none, some r =>
      { u.loadFp r.req.op.isSqrt r.req.op.fmt r.req.a r.req.b i.flush with
        isFp := true, rsqrt := r.req.op.isRsqrt, ph1Denorm := false, ph1 := FpDivider.noFlags
        robPtr := r.robPtr, fpDst := r.dstPtr, rm := r.req.rm, fmt := r.req.op.fmt }
    | none, none => { u with cnt := 0, q := 0 }
  | .iter =>
    let wait := if u.isFp then UniState.fpWaitwb else .intWaitwb
    if u.cnt = u.last then
      { u.iterate with
        rem := u.sel
        state := if i.flush then wait else if u.isFp then .fpNorm else .intPack }
    else { u.iterate with rem := u.shifted, state := if i.flush then wait else .iter }
  | .intPack =>
    { u with q := u.intSide.lo, rem := u.intSide.hi.setWidth 66, state := .intWaitwb }
  | .intWaitwb => if i.wbSlotUsed then u else { u with state := .idle }
  | .fpNorm => { u with sig := u.fpSide.normSig, ebase := u.fpSide.normEbase, state := .fpRound }
  | .fpRound =>
    { u with
      fpY := u.fpSide.roundOut.y, fpDenorm := u.fpSide.roundOut.denorm
      fpFflags := u.fpSide.roundOut.fflags
      state := if u.rsqrt then .fpRsqrt2 else .fpWaitwb }
  | .fpRsqrt2 =>
    { u.loadFp false u.fmt (Fpu.one u.fmt) u.fpY i.flush with
      rsqrt := false, ph1Denorm := u.fpDenorm, ph1 := u.fpFflags }
  | .fpWaitwb => if i.fpWbSlotUsed then u else { u with state := .idle }

/-- `ready`, and `fp_ready`. -/
def ready : Bool := u.state = .idle && i.start.isNone && i.fpStart.isNone

/-- `complete`. -/
def complete : Bool := u.state = .intWaitwb && !i.wbSlotUsed

/-- `fp_complete`. -/
def fpComplete : Bool := u.state = .fpWaitwb && !i.fpWbSlotUsed

/-- `y`: the remainder and the quotient. -/
def y : BitVec 128 := u.rem.setWidth 64 ++ u.q

/-- `fp_y`, `fp_denorm` and `fp_fflags`. -/
def fpOut : Out := ⟨u.fpY, u.fpDenorm || u.ph1Denorm, u.fpFflags.or u.ph1⟩

/-- The unit after some cycles. -/
def run (ins : ℕ → UniIn R H P) : ℕ → UniDivider R H P
  | 0 => u
  | n + 1 => (run ins n).next (ins n)

theorem run_add (ins : ℕ → UniIn R H P) (m n : ℕ) :
    u.run ins (m + n) = (u.run ins m).run (fun t => ins (m + t)) n := by
  induction n with
  | zero => rfl
  | succ n ih => rw [← Nat.add_assoc, run, ih, run]

section Sides

variable {u : UniDivider R H P} {i : UniIn R H P}

theorem loadInt_intSide (r : IntReq R H) :
    (u.loadInt r).intSide = Divider.start r.srcA r.srcB r.is32b r.isSignedDiv := rfl

/-- **An integer divide sees the integer divider**, in a cycle that may cut it short. -/
theorem intSide_next (hs : u.state = .iter ∨ u.state = .intPack ∨ u.state = .intWaitwb)
    (hfp : u.isFp = false) (hsq : u.isSqrt = false) :
    (u.next i).intSide = u.intSide.nextOrCut i.flush i.wbSlotUsed := by
  rcases hs with hs | hs | hs
  · have hrhs : u.rhs.setWidth 67 = u.opb.setWidth 67 := by
      rw [rhs, hsq, if_neg Bool.false_ne_true]
      refine BitVec.eq_of_toNat_eq ?_
      have ho := u.opb.isLt
      simp only [BitVec.toNat_setWidth]
      omega
    have hdiff : u.diff = u.intSide.diff := by
      rw [diff, hrhs]
      rfl
    have hbit : u.bit = u.intSide.bit := by rw [bit, hdiff, Divider.bit]
    have hsel : u.sel = u.intSide.sel := by
      rw [sel, hbit, hdiff]
      rfl
    have hst : u.intSide.state = .iter := by simp [intSide, hs]
    by_cases hl : u.cnt = u.last
    · have hl' : u.intSide.cnt = u.intSide.last := hl
      cases hf : i.flush <;>
        simp only [next, hs, hl, hf, hfp, if_true, Bool.false_eq_true, if_false, iterate, hsq, hbit,
          hsel, Divider.nextOrCut, Divider.next, hst, hl', Bool.and_true, decide_true] <;> rfl
    · have hl' : ¬ u.intSide.cnt = u.intSide.last := hl
      cases hf : i.flush <;>
        simp only [next, hs, hl, hf, hfp, if_true, if_false, Bool.false_eq_true, iterate, shifted,
          hsq, hbit, hsel, Divider.nextOrCut, Divider.next, hst, hl', decide_true, Bool.false_and,
          Bool.true_and] <;> rfl
  · have hst : u.intSide.state = .intPack := by simp [intSide, hs]
    simp only [next, hs, Divider.nextOrCut, Divider.next, hst, reduceCtorEq, decide_false,
      Bool.and_false, Bool.false_eq_true, if_false]
    rfl
  · have hst : u.intSide.state = .intWaitwb := by simp [intSide, hs]
    cases hw : i.wbSlotUsed with
    | true =>
      simp only [next, hs, Divider.nextOrCut, Divider.next, hst, hw, reduceCtorEq, decide_false,
        Bool.and_false, Bool.false_eq_true, if_false, if_true]
    | false =>
      simp only [next, hs, Divider.nextOrCut, Divider.next, hst, hw, reduceCtorEq, decide_false,
        Bool.and_false, Bool.false_eq_true, if_false]
      rfl

theorem rhs_toNat (u : UniDivider R H P) : u.rhs.toNat = u.fpSide.rhs := by
  rw [rhs, FpDivider.rhs]
  show _ = if u.isSqrt then _ else _
  cases u.isSqrt with
  | true =>
    have hq := u.q.isLt
    simp only [if_true, BitVec.toNat_setWidth, BitVec.toNat_append, fpSide]
    rw [← Nat.shiftLeft_add_eq_or_of_lt (by decide : (1#2).toNat < 2 ^ 2), Nat.shiftLeft_eq,
      Nat.mod_eq_of_lt]
    · rfl
    · have hm := Nat.mod_lt u.q.toNat (Nat.two_pow_pos 56)
      simp only [BitVec.toNat_ofNat]
      omega
  | false =>
    have ho := u.opb.isLt
    simp only [Bool.false_eq_true, if_false, BitVec.toNat_setWidth, fpSide]
    omega

/-- The borrow of the subtraction decides. -/
theorem bit_toNat (u : UniDivider R H P) : u.bit = u.fpSide.bit := by
  have hr := u.rem.isLt
  have hrhs := u.rhs.isLt
  rw [bit, FpDivider.bit, ← rhs_toNat, diff, BitVec.msb_eq_decide, Bool.not_eq_eq_eq_not,
    ← decide_not, decide_eq_decide]
  simp only [BitVec.toNat_sub, BitVec.toNat_setWidth, fpSide]
  omega

theorem sel_toNat (u : UniDivider R H P) : u.sel.toNat = u.fpSide.sel := by
  have hr := u.rem.isLt
  have hrhs := u.rhs.isLt
  have hbit := bit_toNat u
  rw [sel, FpDivider.sel, ← hbit, ← rhs_toNat]
  cases hb : u.bit with
  | true =>
    rw [hb, FpDivider.bit, ← rhs_toNat, eq_comm, decide_eq_true_eq] at hbit
    simp only [if_true, diff, BitVec.toNat_setWidth, BitVec.toNat_sub, fpSide] at hbit ⊢
    omega
  | false => rfl

/-- The recurrence is that of the floating-point divider. -/
theorem iterate_fpSide (u : UniDivider R H P) : u.iterate.fpSide = u.fpSide.iterate := by
  have hq := u.q.isLt
  have hsrc := u.src.isLt
  have hb := Bool.toNat_le u.bit
  rw [FpDivider.iterate, ← bit_toNat]
  simp only [iterate, fpSide, FpDivider.mk.injEq, true_and, and_true]
  refine ⟨?_, ?_, ?_⟩
  · rw [BitVec.toNat_concat, BitVec.toNat_setWidth]
    omega
  · by_cases hsq : u.isSqrt = true
    · simp only [hsq, if_true, BitVec.toNat_append, BitVec.toNat_setWidth, BitVec.toNat_ofNat,
        Nat.zero_mod, Nat.or_zero, Nat.shiftLeft_eq]
      omega
    · simp only [hsq, if_false, Bool.false_eq_true, BitVec.toNat_concat, BitVec.toNat_setWidth,
        Bool.toNat_false]
      omega
  · rw [BitVec.toNat_add]
    rfl

theorem shifted_toNat (u : UniDivider R H P) : u.shifted.toNat = u.fpSide.shifted := by
  have hsrc := u.src.isLt
  rw [shifted, FpDivider.shifted, ← sel_toNat]
  show _ = if u.isSqrt then _ else _
  have hsel := u.sel.isLt
  cases u.isSqrt with
  | true =>
    have hx : (u.src.extractLsb' 62 2).toNat = u.src.toNat / 2 ^ 62 := by
      rw [BitVec.extractLsb'_toNat, Nat.shiftRight_eq_div_pow]
      omega
    simp only [if_true, BitVec.toNat_append, fpSide]
    rw [← Nat.shiftLeft_add_eq_or_of_lt (BitVec.isLt _), Nat.shiftLeft_eq, hx,
      BitVec.toNat_setWidth]
    omega
  | false =>
    have hm : u.src.msb.toNat = u.src.toNat / 2 ^ 63 := by
      rw [BitVec.msb_eq_decide]
      by_cases h : 2 ^ 63 ≤ u.src.toNat
      · rw [decide_eq_true h, Bool.toNat_true]
        omega
      · rw [decide_eq_false h, Bool.toNat_false]
        omega
    simp only [Bool.false_eq_true, if_false, BitVec.toNat_concat, BitVec.toNat_setWidth, hm, fpSide]
    omega

/-- The front end is that of the floating-point divider. -/
theorem loadFp_fpSide (u : UniDivider R H P) (isSqrt fmt : Bool) (a b : BitVec 64) (flush : Bool) :
    (u.loadFp isSqrt fmt a b flush).fpSide = u.fpSide.load isSqrt fmt a b flush := by
  have ha := Fpu.sig_bounds fmt a
  have hb := Fpu.sig_bounds fmt b
  have hr := Fpu.rad_bounds fmt a
  simp only [loadFp, fpSide, FpDivider.load, FpDivider.mk.injEq, and_true, BitVec.toNat_ofNat]
  refine ⟨?_, ?_, rfl, ?_, ?_, rfl, ?_⟩
  · cases flush <;> cases Fpu.opEarly isSqrt fmt a b || Fpu.divDenorm isSqrt fmt a b <;> rfl
  · cases isSqrt <;> simp only [if_true, Bool.false_eq_true, if_false] <;> omega
  · omega
  · cases isSqrt <;> simp
  · cases isSqrt <;> cases fmt <;> rfl

/-- **A floating-point operation sees the floating-point divider.** -/
theorem fpSide_next (hs : u.state = .idle → i.start = none) (hi : u.state = .iter → u.isFp = true)
    (hp : u.state ≠ .intPack) (hw : u.state ≠ .intWaitwb) :
    (u.next i).fpSide = u.fpSide.next ⟨i.fpStart.map FpReq.req, i.flush, i.fpWbSlotUsed⟩ := by
  cases hst : u.state with
  | idle =>
    have hside : u.fpSide.state = .idle := by simp [fpSide, hst]
    cases hq : i.fpStart with
    | none =>
      simp only [next, hst, hs hst, hq, FpDivider.next, hside, Option.map_none]
      simp only [fpSide, hst]
      rfl
    | some r =>
      have hload := loadFp_fpSide u r.req.op.isSqrt r.req.op.fmt r.req.a r.req.b i.flush
      simp only [next, hst, hs hst, hq, FpDivider.next, hside, Option.map_some, ← hload]
      rfl
  | iter =>
    have hside : u.fpSide.state = .iter := by simp [fpSide, hst]
    have hcnt : u.fpSide.cnt = u.fpSide.last ↔ u.cnt = u.last := BitVec.toNat_inj
    have hfp := hi hst
    by_cases hl : u.cnt = u.last
    · simp only [next, hst, if_pos hl, hfp, if_true, FpDivider.next, hside, if_pos (hcnt.2 hl),
        ← iterate_fpSide, ← sel_toNat]
      cases i.flush <;> rfl
    · simp only [next, hst, if_neg hl, hfp, if_true, FpDivider.next, hside,
        if_neg (mt hcnt.1 hl), ← iterate_fpSide, ← shifted_toNat]
      cases i.flush <;> rfl
  | intPack => exact absurd hst hp
  | intWaitwb => exact absurd hst hw
  | fpNorm =>
    have hside : u.fpSide.state = .fpNorm := by simp [fpSide, hst]
    simp only [next, hst, FpDivider.next, hside]
    rfl
  | fpRound =>
    have hside : u.fpSide.state = .fpRound := by simp [fpSide, hst]
    have hrs : u.fpSide.rsqrt = u.rsqrt := rfl
    simp only [next, hst, FpDivider.next, hside, hrs]
    cases u.rsqrt <;> rfl
  | fpRsqrt2 =>
    have hside : u.fpSide.state = .fpRsqrt2 := by simp [fpSide, hst]
    have hload := loadFp_fpSide u false u.fmt (Fpu.one u.fmt) u.fpY i.flush
    have hin : u.fpSide.fmt = u.fmt ∧ u.fpSide.y = u.fpY := ⟨rfl, rfl⟩
    simp only [next, hst, FpDivider.next, hside, hin, ← hload]
    rfl
  | fpWaitwb =>
    have hside : u.fpSide.state = .fpWaitwb := by simp [fpSide, hst]
    cases hw' : i.fpWbSlotUsed with
    | true => simp only [next, hst, FpDivider.next, hside, hw', if_true]
    | false =>
      simp only [next, hst, FpDivider.next, hside, hw', Bool.false_eq_true, if_false]
      rfl

end Sides

end UniDivider

end Exec

end R9999
