import R9999.Fpu.Round
import R9999.Hw.Restoring

/-!
# The floating-point side of the divider

`uni_divider.sv`, less the integer divide it shares the recurrence with, in the configuration
with MIPS IV (`ENABLE_MIPS4`), which alone has the reciprocal square root: a square root, whose
result goes in again as the divisor of one.  The other operations are the same without it.

A divide or a square root runs the recurrence for as many steps as its format needs.
`Iterating` is what the recurrence keeps.
-/

open Hw (RoundMode Rounds Tail Dividing Rooting restore)

namespace R9999.Fpu

/-- The opcodes of the unit.  A reciprocal comes in as a divide of one. -/
inductive DivOp where
  | spDiv | dpDiv | spSqrt | dpSqrt | spRecip | dpRecip | spRsqrt | dpRsqrt
  deriving DecidableEq, Repr

/-- `w_op_rsqrt`. -/
def DivOp.isRsqrt (op : DivOp) : Bool := op = .spRsqrt || op = .dpRsqrt

/-- `w_is_sqrt_op`, of an operation that comes in. -/
def DivOp.isSqrt (op : DivOp) : Bool := op = .spSqrt || op = .dpSqrt || op.isRsqrt

/-- `w_fmt_op`, of an operation that comes in. -/
def DivOp.fmt (op : DivOp) : Bool :=
  op = .dpDiv || op = .dpSqrt || op = .dpRecip || op = .dpRsqrt

/-- An operation: `fp_opcode`, `fp_src_a`, `fp_src_b` and `fp_rm`. -/
structure DivReq where
  op : DivOp
  a : BitVec 64
  b : BitVec 64
  rm : RoundMode

/-- The inputs of one cycle: `fp_start` with its operation, `flush` and `fp_wb_slot_used`. -/
structure DivIn where
  start : Option DivReq
  flush : Bool
  wbUsed : Bool

/-- `state_t`, but for the states of the integer side. -/
inductive FpDivState where
  | idle | iter | fpNorm | fpRound | fpWaitwb | fpRsqrt2
  deriving DecidableEq, Repr

/-- The registers of the unit. -/
structure FpDivider where
  state : FpDivState
  rem : ℕ
  q : ℕ
  opb : ℕ
  src : ℕ
  cnt : ℕ
  last : ℕ
  isSqrt : Bool
  rm : RoundMode
  fmt : Bool
  sign : Bool
  ebase : ℤ
  special : Bool
  earlyY : BitVec 64
  inv : Bool
  dz : Bool
  inden : Bool
  rsqrt : Bool
  /-- `denorm` and the flags of the first pass. -/
  ph1Denorm : Bool
  ph1 : Fflags
  sig : Sig
  y : BitVec 64
  fflags : Fflags
  denorm : Bool

/-- Both sets of flags. -/
def Fflags.or (f g : Fflags) : Fflags :=
  ⟨f.v || g.v, f.z || g.z, f.o || g.o, f.u || g.u, f.i || g.i⟩

/-! ## The front end -/

section Front

variable (isSqrt fmt : Bool) (a b : BitVec 64)

/-- `w_sign`. -/
def divSign : Bool := if isSqrt then sgn fmt a else sgn fmt a ^^ sgn fmt b

/-- `w_in_denorm`. -/
def divDenorm : Bool := isDenorm fmt a || (!isSqrt && isDenorm fmt b)

/-- `div_dz`. -/
def divDz : Bool :=
  !isNan fmt a && !isInf fmt a && !isNan fmt b && !isInf fmt b && isZero fmt b && !isZero fmt a

/-- The invalid quotients: zero by zero and infinity by infinity. -/
def divUndefined : Bool := (isZero fmt a && isZero fmt b) || (isInf fmt a && isInf fmt b)

/-- `sqrt_inv`. -/
def sqrtInv : Bool := isSnan fmt a || (sgn fmt a && !isZero fmt a && !isNan fmt a)

/-- `w_op_inv`. -/
def opInv : Bool :=
  if isSqrt then sqrtInv fmt a else isSnan fmt a || isSnan fmt b || divUndefined fmt a b

/-- `w_op_dz`. -/
def opDz : Bool := if isSqrt then false else divDz fmt a b

/-- `w_op_early`. -/
def opEarly : Bool :=
  if isSqrt then isNan fmt a || isInf fmt a || isZero fmt a || sqrtInv fmt a
  else special fmt a b || isZero fmt a || isZero fmt b

/-- `w_op_early_y`. -/
def opEarlyY : BitVec 64 :=
  if isSqrt then
    if isNan fmt a || sqrtInv fmt a then defNan fmt
    else if isInf fmt a then infinity fmt false
    else zero fmt (divSign isSqrt fmt a b)
  else if isNan fmt a || isNan fmt b then defNan fmt
  else if divUndefined fmt a b then defNan fmt
  else if isInf fmt a || isZero fmt b then infinity fmt (divSign isSqrt fmt a b)
  else zero fmt (divSign isSqrt fmt a b)

/-- `w_div_ebase` and `w_sqrt_ebase`. -/
def opEbase : ℤ :=
  if isSqrt then ((exp fmt a : ℤ) - bias fmt) / 2 + bias fmt
  else (exp fmt a : ℤ) - exp fmt b + bias fmt

/-- `w_rad`: doubled where the exponent is odd. -/
def rad : ℕ :=
  if (exp fmt a).testBit 0 ^^ (bias fmt).testBit 0 then sig fmt a * 2 ^ 57 else sig fmt a * 2 ^ 56

/-- The index of the last step. -/
def lastStep : ℕ :=
  if isSqrt then if fmt then 54 else 25 else if fmt then 55 else 26

end Front

/-- One, as the divide pass of a reciprocal square root has it. -/
def one (fmt : Bool) : BitVec 64 := if fmt then 0x3ff0000000000000#64 else 0x3f800000#64

namespace FpDivider

variable (d : FpDivider)

/-- An operation enters the recurrence, or goes on to the last stage without it. -/
def load (isSqrt fmt : Bool) (a b : BitVec 64) (flush : Bool) : FpDivider :=
  { d with
    state :=
      if flush then .fpWaitwb
      else if opEarly isSqrt fmt a b || divDenorm isSqrt fmt a b then .fpRound else .iter
    cnt := 0
    q := 0
    isSqrt
    sign := divSign isSqrt fmt a b
    special := opEarly isSqrt fmt a b || divDenorm isSqrt fmt a b
    earlyY := opEarlyY isSqrt fmt a b
    inv := opInv isSqrt fmt a b
    dz := opDz isSqrt fmt a b
    inden := divDenorm isSqrt fmt a b
    ebase := opEbase isSqrt fmt a b
    opb := Fpu.sig fmt b
    rem := if isSqrt then rad fmt a / 2 ^ 108 else Fpu.sig fmt a
    src := if isSqrt then rad fmt a / 2 ^ 44 % 2 ^ 64 else 0
    last := lastStep isSqrt fmt }

/-! ## The recurrence -/

/-- `w_rhs`. -/
def rhs : ℕ := if d.isSqrt then d.q % 2 ^ 56 * 4 + 1 else d.opb

/-- `w_bit`. -/
def bit : Bool := d.rhs ≤ d.rem

/-- `w_sel`. -/
def sel : ℕ := if d.bit then d.rem - d.rhs else d.rem

/-- A step, but for the partial remainder and the state. -/
def iterate : FpDivider :=
  { d with
    q := (d.q * 2 + d.bit.toNat) % 2 ^ 64
    cnt := (d.cnt + 1) % 2 ^ 6
    src := if d.isSqrt then d.src * 4 % 2 ^ 64 else d.src * 2 % 2 ^ 64 }

/-- The partial remainder with the next bits of the source. -/
def shifted : ℕ :=
  if d.isSqrt then (d.sel * 4 + d.src / 2 ^ 62) % 2 ^ 66 else (d.sel * 2 + d.src / 2 ^ 63) % 2 ^ 66

/-! ## The normalization -/

/-- `w_q`: the short result of a single, left-aligned. -/
def wQ : ℕ :=
  if d.fmt then d.q % 2 ^ 56
  else if d.isSqrt then d.q % 2 ^ 26 * 2 ^ 29
  else d.q % 2 ^ 27 * 2 ^ 29

/-- `w_div_ge1`. -/
def divGe1 : Bool := d.wQ.testBit 55

/-- `w_div_sig` and `w_sqrt_sig`, with their three bits. -/
def normSig : Sig :=
  let remNz := d.rem != 0
  if !d.isSqrt && d.divGe1 then
    { sig := d.wQ / 2 ^ 3 % 2 ^ 53, gd := d.wQ.testBit 2, rd := d.wQ.testBit 1
      sd := d.wQ.testBit 0 || remNz }
  else
    { sig := d.wQ / 2 ^ 2 % 2 ^ 53, gd := d.wQ.testBit 1, rd := d.wQ.testBit 0, sd := remNz }

/-- `w_div_ebase_norm`. -/
def normEbase : ℤ := if d.isSqrt then d.ebase else d.ebase - (!d.divGe1).toNat

/-! ## Round and pack -/

/-- `w_y`, `w_denorm` and `w_fflags`. -/
def roundOut : Out :=
  let ovf := !d.special && d.sig.overflow d.fmt d.rm d.sign d.ebase
  let udf := !d.special && d.sig.underflow d.fmt d.rm d.sign d.ebase
  { y :=
      if d.special then d.earlyY
      else if ovf then Sig.ovfY d.fmt d.rm d.sign
      else d.sig.normY d.fmt d.rm d.sign d.ebase
    denorm := d.inden || (!d.special && udf)
    fflags := ⟨d.inv, d.dz, !d.special && ovf, !d.special && udf,
      !d.special && (d.sig.inexact d.fmt || ovf)⟩ }

/-! ## The machine -/

/-- A clock cycle. -/
def next (i : DivIn) : FpDivider :=
  match d.state with
  | .idle =>
    match i.start with
    | none => { d with cnt := 0, q := 0 }
    | some r =>
      { d.load r.op.isSqrt r.op.fmt r.a r.b i.flush with
        rsqrt := r.op.isRsqrt, ph1Denorm := false, ph1 := ⟨false, false, false, false, false⟩
        rm := r.rm, fmt := r.op.fmt }
  | .iter =>
    if d.cnt = d.last then
      { d.iterate with rem := d.sel, state := if i.flush then .fpWaitwb else .fpNorm }
    else { d.iterate with rem := d.shifted, state := if i.flush then .fpWaitwb else .iter }
  | .fpNorm => { d with sig := d.normSig, ebase := d.normEbase, state := .fpRound }
  | .fpRound =>
    { d with
      y := d.roundOut.y, denorm := d.roundOut.denorm, fflags := d.roundOut.fflags
      state := if d.rsqrt then .fpRsqrt2 else .fpWaitwb }
  | .fpRsqrt2 =>
    { d.load false d.fmt (one d.fmt) d.y i.flush with
      rsqrt := false, ph1Denorm := d.denorm, ph1 := d.fflags }
  | .fpWaitwb => if i.wbUsed then d else { d with state := .idle }

/-- `fp_complete`. -/
def complete (i : DivIn) : Bool := d.state = .fpWaitwb && !i.wbUsed

/-- `fp_y`, `fp_denorm` and `fp_fflags`. -/
def out : Out := ⟨d.y, d.denorm || d.ph1Denorm, d.fflags.or d.ph1⟩

/-- The unit after some cycles. -/
def run (ins : ℕ → DivIn) : ℕ → FpDivider
  | 0 => d
  | n + 1 => (run ins n).next (ins n)

/-! ## What the recurrence keeps -/

/-- The partial remainder and the quotient or root, before step `k`: `A` and `B` are the
significands of a divide, `R` the radicand of a square root. -/
def Partial (isSqrt : Bool) (A B R k q rem src : ℕ) : Prop :=
  if isSqrt then Rooting (R / 2 ^ 44 * 4 ^ k / 2 ^ 64) k q rem ∧ src = R / 2 ^ 44 * 4 ^ k % 2 ^ 64
  else Dividing A B k q rem ∧ src = 0

/-- What the last step leaves. -/
def Complete (isSqrt : Bool) (A B R k q rem : ℕ) : Prop :=
  if isSqrt then q * q + rem = R / 2 ^ 44 * 4 ^ k / 2 ^ 64 ∧ rem ≤ 2 * q
  else q * B + rem = A * 2 ^ k ∧ rem < B

/-- Before step `k` of an operation loaded as `d₀`. -/
structure Iterating (d₀ : FpDivider) (A R k : ℕ) (d : FpDivider) : Prop where
  frame : d = { d₀ with q := d.q, rem := d.rem, src := d.src, cnt := k }
  values : Partial d₀.isSqrt A d₀.opb R k d.q d.rem d.src

section Step

variable {d₀ d : FpDivider} {A R k : ℕ}

theorem sel_eq (d : FpDivider) : d.sel = restore d.rem d.rhs := by
  rw [sel, restore, bit]
  by_cases h : d.rhs ≤ d.rem <;> simp [h]

theorem rhs_eq (h : Iterating d₀ A R k d) (hk : k < 56) :
    d.rhs = if d₀.isSqrt then 4 * d.q + 1 else d₀.opb := by
  have hs : d.isSqrt = d₀.isSqrt := by rw [h.frame]
  have ho : d.opb = d₀.opb := by rw [h.frame]
  have hv := h.values
  rw [rhs, hs, ho]
  cases hq : d₀.isSqrt with
  | true =>
    rw [Partial, hq, if_pos rfl] at hv
    have hlt : d.q < 2 ^ 56 := hv.1.small.trans_le (Nat.pow_le_pow_right (by decide) hk.le)
    rw [if_pos rfl, if_pos rfl, Nat.mod_eq_of_lt hlt, Nat.mul_comm]
  | false => rfl

/-- The quotient or root so far leaves room for one more bit. -/
theorem q_iterate (h : Iterating d₀ A R k d) (hk : k < 56) :
    d.iterate.q = 2 * d.q + d.bit.toNat ∧ d.iterate.cnt = k + 1 := by
  have hq : d.q < 2 ^ k := by
    have hv := h.values
    cases hs : d₀.isSqrt with
    | true =>
      rw [Partial, hs, if_pos rfl] at hv
      exact hv.1.small
    | false =>
      rw [Partial, hs, if_neg Bool.false_ne_true] at hv
      exact hv.1.small
  have hlt : d.q < 2 ^ 56 := hq.trans_le (Nat.pow_le_pow_right (by decide) hk.le)
  have hb := Bool.toNat_le d.bit
  have hc : d.cnt = k := by rw [h.frame]
  refine ⟨?_, ?_⟩
  · show (d.q * 2 + d.bit.toNat) % 2 ^ 64 = _
    omega
  · show (d.cnt + 1) % 2 ^ 6 = _
    omega

theorem bit_eq (h : Iterating d₀ A R k d) (hk : k < 56) :
    d.bit = decide ((if d₀.isSqrt then 4 * d.q + 1 else d₀.opb) ≤ d.rem) := by
  rw [bit, rhs_eq h hk]

/-- The last step. -/
theorem complete_values (h : Iterating d₀ A R k d) (hk : k < 56) :
    Complete d₀.isSqrt A d₀.opb R k d.iterate.q d.sel := by
  have hb := bit_eq h hk
  have hv := h.values
  rw [(q_iterate h hk).1, sel_eq, rhs_eq h hk, hb]
  cases hs : d₀.isSqrt with
  | true =>
    rw [Partial, hs, if_pos rfl] at hv
    exact hv.1.last
  | false =>
    rw [Partial, hs, if_neg Bool.false_ne_true] at hv
    exact hv.1.last

/-- A step but for the last. -/
theorem partial_values (h : Iterating d₀ A R k d) (hk : k < 56) (hB : d₀.opb < 2 ^ 53) :
    Partial d₀.isSqrt A d₀.opb R (k + 1) d.iterate.q d.shifted d.iterate.src := by
  have hb := bit_eq h hk
  have hc := complete_values h hk
  have hv := h.values
  have hs' : d.isSqrt = d₀.isSqrt := by rw [h.frame]
  have hq := (q_iterate h hk).1
  have hsel := sel_eq d
  rw [rhs_eq h hk] at hsel
  rw [hq] at hc
  have hiter : d.iterate.src = if d₀.isSqrt then d.src * 4 % 2 ^ 64 else d.src * 2 % 2 ^ 64 := by
    rw [← hs']
    rfl
  rw [hq, hiter, shifted, hs']
  cases hs : d₀.isSqrt with
  | true =>
    rw [hs, if_pos rfl] at hb hsel
    rw [Partial, hs, if_pos rfl] at hv
    rw [Complete, hs, if_pos rfl] at hc
    obtain ⟨hr, hsrc⟩ := hv
    have hpair : d.src / 2 ^ 62 < 4 := by omega
    have hstep := hr.step hpair
    have hlt := hr.lt_pow
    have hlt' : 2 ^ (k + 1) ≤ 2 ^ 56 := Nat.pow_le_pow_right (by decide) hk
    have hpow : R / 2 ^ 44 * 4 ^ (k + 1) = R / 2 ^ 44 * 4 ^ k * 4 := by ring
    rw [← hb, ← hsel] at hstep
    rw [← hb] at hlt
    have hrem : (d.sel * 4 + d.src / 2 ^ 62) % 2 ^ 66 = 4 * d.sel + d.src / 2 ^ 62 := by omega
    rw [if_pos rfl, if_pos rfl, Partial, if_pos rfl, hrem, hpow]
    generalize R / 2 ^ 44 * 4 ^ k = X at *
    have hX : 4 * (X / 2 ^ 64) + d.src / 2 ^ 62 = X * 4 / 2 ^ 64 := by omega
    rw [← hX]
    exact ⟨hstep, by omega⟩
  | false =>
    rw [hs, if_neg Bool.false_ne_true] at hb hsel
    rw [Partial, hs, if_neg Bool.false_ne_true] at hv
    rw [Complete, hs, if_neg Bool.false_ne_true] at hc
    obtain ⟨hd, hsrc⟩ := hv
    have hstep := hd.step
    rw [← hb, ← hsel] at hstep
    have hrem : (d.sel * 2 + d.src / 2 ^ 63) % 2 ^ 66 = 2 * d.sel := by omega
    rw [if_neg Bool.false_ne_true, if_neg Bool.false_ne_true, Partial, if_neg Bool.false_ne_true,
      hrem, hsrc]
    exact ⟨hstep, rfl⟩

end Step

/-! ## Runs -/

/-- The unit with an operation loaded, and what its pass does not change. -/
def loaded (isSqrt fmt : Bool) (rm : RoundMode) (a b : BitVec 64) (rsqrt ph1Denorm : Bool)
    (ph1 : Fflags) : FpDivider :=
  { d.load isSqrt fmt a b false with rsqrt, ph1Denorm, ph1, rm, fmt }

/-- No flags. -/
def noFlags : Fflags := ⟨false, false, false, false, false⟩

theorem idle_next {i : DivIn} {r : DivReq} (hs : d.state = .idle) (hi : i.start = some r)
    (hf : i.flush = false) :
    d.next i = d.loaded r.op.isSqrt r.op.fmt r.rm r.a r.b r.op.isRsqrt false noFlags := by
  simp only [next, hs, hi, hf]
  rfl

theorem rsqrt2_next {i : DivIn} (hs : d.state = .fpRsqrt2) (hf : i.flush = false) :
    d.next i = d.loaded false d.fmt d.rm (one d.fmt) d.y false d.denorm d.fflags := by
  simp only [next, hs, hf]
  rfl

theorem run_add (ins : ℕ → DivIn) (m n : ℕ) :
    d.run ins (m + n) = (d.run ins m).run (fun t => ins (m + t)) n := by
  induction n with
  | zero => rfl
  | succ n ih =>
    show (d.run ins (m + n)).next (ins (m + n)) = _
    rw [ih]
    rfl

section Run

variable {d} {d₀ : FpDivider} {A R k : ℕ} {i : DivIn}

/-- A step but for the last. -/
theorem Iterating.next (h : Iterating d₀ A R k d) (hs : d₀.state = .iter) (hB : d₀.opb < 2 ^ 53)
    (hk : k < d₀.last) (hl : d₀.last < 56) (hf : i.flush = false) :
    Iterating d₀ A R (k + 1) (d.next i) := by
  have hvalues := partial_values h (by omega : k < 56) hB
  have hcnt := (q_iterate h (by omega : k < 56)).2
  obtain ⟨q, rem, src, rfl⟩ : ∃ q rem src, d = { d₀ with q, rem, src, cnt := k } :=
    ⟨_, _, _, h.frame⟩
  have hnext : FpDivider.next { d₀ with q, rem, src, cnt := k } i =
      { iterate { d₀ with q, rem, src, cnt := k } with
        rem := shifted { d₀ with q, rem, src, cnt := k }, state := .iter } := by
    simp only [FpDivider.next, hs, if_neg hk.ne, hf, Bool.false_eq_true, if_false]
  rw [hnext]
  refine ⟨?_, hvalues⟩
  rw [iterate] at hcnt
  simp only [iterate, ← hs, hcnt]

/-- The last step. -/
theorem Iterating.last (h : Iterating d₀ A R d₀.last d) (hs : d₀.state = .iter)
    (hl : d₀.last < 56) (hf : i.flush = false) :
    ∃ q rem src cnt, d.next i = { d₀ with q, rem, src, cnt, state := .fpNorm } ∧
      Complete d₀.isSqrt A d₀.opb R d₀.last q rem := by
  have hvalues := complete_values h hl
  obtain ⟨q, rem, src, rfl⟩ : ∃ q rem src, d = { d₀ with q, rem, src, cnt := d₀.last } :=
    ⟨_, _, _, h.frame⟩
  have hnext : FpDivider.next { d₀ with q, rem, src, cnt := d₀.last } i =
      { iterate { d₀ with q, rem, src, cnt := d₀.last } with
        rem := sel { d₀ with q, rem, src, cnt := d₀.last }, state := .fpNorm } := by
    simp only [FpDivider.next, hs, if_true, hf, Bool.false_eq_true, if_false]
  exact ⟨(iterate { d₀ with q, rem, src, cnt := d₀.last }).q, _,
    (iterate { d₀ with q, rem, src, cnt := d₀.last }).src,
    (iterate { d₀ with q, rem, src, cnt := d₀.last }).cnt, hnext, hvalues⟩

/-- The whole recurrence. -/
theorem iterating_run (ins : ℕ → DivIn) (h : Iterating d₀ A R 0 d₀) (hs : d₀.state = .iter)
    (hB : d₀.opb < 2 ^ 53) (hl : d₀.last < 56) (hf : ∀ t, (ins t).flush = false) (hk : k ≤ d₀.last) :
    Iterating d₀ A R k (d₀.run ins k) := by
  induction k with
  | zero => exact h
  | succ k ih => exact (ih (by omega)).next hs hB hk hl (hf k)

/-- The unit is busy with its pass: it holds no result. -/
theorem Iterating.busy (h : Iterating d₀ A R k d) (hs : d₀.state = .iter) :
    d.state = .iter := by
  rw [h.frame]
  exact hs

/-- The normalization and the rounding. -/
theorem round_next (d : FpDivider) (i j : DivIn) (hs : d.state = .fpNorm) :
    (d.next i).state = .fpRound ∧
      (d.next i).next j =
        { d with
          sig := d.normSig, ebase := d.normEbase
          y := (roundOut { d with sig := d.normSig, ebase := d.normEbase }).y
          denorm := (roundOut { d with sig := d.normSig, ebase := d.normEbase }).denorm
          fflags := (roundOut { d with sig := d.normSig, ebase := d.normEbase }).fflags
          state := if d.rsqrt then .fpRsqrt2 else .fpWaitwb } := by
  have hnorm : d.next i = { d with sig := d.normSig, ebase := d.normEbase, state := .fpRound } := by
    simp only [next, hs]
  rw [hnorm]
  exact ⟨rfl, rfl⟩

end Run

end FpDivider

end R9999.Fpu
