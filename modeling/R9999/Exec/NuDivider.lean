import R9999.Hw.Clz
import R9999.Exec.Divider

/-!
# The other divider

`nu_divider.sv` at 64 bits, which takes the place of the integer side of `uni_divider.sv` in
some builds.  It holds the dividend in the lower half of a register of twice the width and
the divisor at the top of another, and skips the steps in which the quotient would have a
zero by the difference of their leading zeros.  `r_A` and `r_B` are left out: nothing reads
them.
-/

open Hw

namespace R9999

namespace Exec

open Divider

/-- `state_t` of `nu_divider.sv`. -/
inductive NuState where
  | idle | clz | divide | packOutput | waitForWb
  deriving DecidableEq, Repr

/-- What the unit is given in a cycle. -/
structure NuInput where
  wbSlotUsed : Bool
  srcA : BitVec 64
  srcB : BitVec 64
  is32b : Bool
  isSignedDiv : Bool
  startDiv : Bool

/-- The registers of the unit. -/
structure NuDivider where
  state : NuState
  isSigned : Bool
  sign : Bool
  remSign : Bool
  y : BitVec 128
  d : BitVec 128
  r : BitVec 128
  /-- `t_ss`, the quotient. -/
  ss : BitVec 64
  is32b : Bool
  idx : BitVec 8

namespace NuDivider

variable (u : NuDivider) (i : NuInput)

/-- `{r_R[W2-2:0], 1'b0}`. -/
def twice : BitVec 128 := (u.r.setWidth 127).concat false

/-- `w_clz_R`. -/
def clzR : BitVec 8 := BitVec.ofNat 8 (countLeadingZeros 5 u.twice.toNat)

/-- `w_clz_D`. -/
def clzD : BitVec 8 := BitVec.ofNat 8 (countLeadingZeros 5 u.d.toNat)

/-- `w_clz_delta`. -/
def clzDelta : BitVec 8 := u.clzR - u.clzD

/-- `t_bit`. -/
def bit : Bool := u.d ≤ u.twice

/-- The sign-extended word of a 32-bit divide. -/
def pack (v : BitVec 64) : BitVec 64 := if u.is32b then (v.setWidth 32).signExtend 64 else v

/-- The lower half of `n_Y`. -/
def lo : BitVec 64 := u.pack (if u.isSigned && u.sign then ~~~u.ss + 1 else u.ss)

/-- The upper half of `r_R`. -/
def high : BitVec 64 := (u.r >>> 64).setWidth 64

/-- The upper half of `n_Y`. -/
def hi : BitVec 64 := u.pack (if u.isSigned && u.remSign then ~~~u.high + 1 else u.high)

/-- The unit in `IDLE`: it takes the operands whether or not there is a divide. -/
def load : NuDivider :=
  let extA := extend i.is32b i.isSignedDiv i.srcA
  let extB := extend i.is32b i.isSignedDiv i.srcB
  { u with
    state := if i.startDiv then .clz else .idle
    isSigned := i.isSignedDiv
    sign := extA.msb ^^ extB.msb
    remSign := extA.msb
    d := magnitude i.isSignedDiv extB ++ (0 : BitVec 64)
    r := (0 : BitVec 64) ++ magnitude i.isSignedDiv extA
    ss := 0
    is32b := i.is32b
    idx := 63 }

/-- A clock cycle. -/
def tick : NuDivider :=
  match u.state with
  | .idle => u.load i
  | .clz =>
    if u.clzDelta ≤ 64 then
      let idx := u.idx - u.clzDelta
      { u with
        r := u.r <<< u.clzDelta
        idx
        state := if idx = 255 then .packOutput else .divide }
    else { u with state := .divide }
  | .divide =>
    { u with
      r := if u.bit then u.twice - u.d else u.twice
      ss := u.ss ||| (BitVec.ofBool u.bit).setWidth 64 <<< u.idx.setWidth 6
      state := if u.idx = 0 then .packOutput else .divide
      idx := u.idx - 1 }
  | .packOutput => { u with y := u.hi ++ u.lo, state := .waitForWb }
  | .waitForWb => if i.wbSlotUsed then u else { u with state := .idle }

/-- `complete`. -/
def complete : Bool := u.state = .waitForWb && !i.wbSlotUsed

/-- The unit after some cycles. -/
def run (i : Nat → NuInput) : Nat → NuDivider
  | 0 => u
  | n + 1 => (run i n).tick (i n)

end NuDivider

section Invariant

namespace NuDivider

variable {u : NuDivider} {A B : BitVec 64} {k : Nat}

/-- The unit has taken `k` bits of the dividend, and has its partial remainder in the upper
half of the register and the other bits of the dividend at the top of the lower half. -/
structure Values (A B : BitVec 64) (k : Nat) (u : NuDivider) : Prop where
  d : u.d.toNat = 2 ^ 64 * B.toNat
  r : u.r.toNat = 2 ^ 64 * (prefixOf A.toNat 64 k % B.toNat) + A.toNat * 2 ^ k % 2 ^ 64
  ss : u.ss.toNat = quotOf B.toNat k (prefixOf A.toNat 64 k) * 2 ^ (64 - k)

/-- It is about to take another one. -/
structure Dividing (A B : BitVec 64) (k : Nat) (u : NuDivider) : Prop extends
    Values A B k u where
  state : u.state = .divide
  more : k < 64
  idx : u.idx.toNat = 63 - k

theorem prefix_lt (A : BitVec 64) (hk : k < 64) : prefixOf A.toNat 64 k < 2 ^ 63 := by
  have hone : 2 ^ 1 ≤ 2 ^ (64 - k) := Nat.pow_le_pow_right (by decide) (by omega)
  have hle : prefixOf A.toNat 64 k ≤ A.toNat / 2 ^ 1 := Nat.div_le_div_left hone (by decide)
  have hA := A.isLt
  omega

/-- The register shifted by one has the next bit in the partial remainder. -/
theorem twice_toNat (h : Dividing A B k u) :
    u.twice.toNat =
      2 ^ 64 * (2 * (prefixOf A.toNat 64 k % B.toNat) + A.toNat / 2 ^ (64 - (k + 1)) % 2) +
        A.toNat * 2 ^ (k + 1) % 2 ^ 64 := by
  have hlow := low_step A.toNat 64 k h.more
  have hmod := Nat.mod_le (prefixOf A.toNat 64 k) B.toNat
  have hlt := prefix_lt A h.more
  have hlo := Nat.mod_lt (A.toNat * 2 ^ k) (Nat.two_pow_pos 64)
  have hr : u.r.toNat < 2 ^ 127 := by
    rw [h.r]
    omega
  rw [twice, BitVec.toNat_concat, BitVec.toNat_setWidth, Nat.mod_eq_of_lt hr, h.r]
  simp only [Bool.toNat_false]
  omega

theorem bit_eq (h : Dividing A B k u) :
    u.bit = decide (B.toNat ≤
      2 * (prefixOf A.toNat 64 k % B.toNat) + A.toNat / 2 ^ (64 - (k + 1)) % 2) := by
  have hlo := Nat.mod_lt (A.toNat * 2 ^ (k + 1)) (Nat.two_pow_pos 64)
  rw [bit, decide_eq_decide, BitVec.le_def, h.d, twice_toNat h]
  omega

/-- The bit goes to its place in the quotient. -/
theorem ss_toNat (h : Dividing A B k u) :
    (u.ss ||| (BitVec.ofBool u.bit).setWidth 64 <<< u.idx.setWidth 6).toNat =
      (2 * quotOf B.toNat k (prefixOf A.toNat 64 k) + u.bit.toNat) * 2 ^ (64 - (k + 1)) := by
  have hk := h.more
  have hidx : (u.idx.setWidth 6).toNat = 64 - (k + 1) := by
    rw [BitVec.toNat_setWidth, h.idx]
    omega
  have hexp : 64 - k = 64 - (k + 1) + 1 := by omega
  have hbit : u.bit.toNat < 2 := Bool.toNat_lt u.bit
  have hpow : 2 ^ (64 - (k + 1)) ≤ 2 ^ 63 := Nat.pow_le_pow_right (by decide) (by omega)
  have hfits : u.bit.toNat * 2 ^ (64 - (k + 1)) < 2 ^ (64 - (k + 1) + 1) := by
    have := Nat.mul_lt_mul_of_pos_right hbit (Nat.two_pow_pos (64 - (k + 1)))
    rw [Nat.pow_succ]
    omega
  have hword : u.bit.toNat * 2 ^ (64 - (k + 1)) < 2 ^ 64 := by
    have : 2 ^ (64 - (k + 1) + 1) ≤ 2 ^ 64 := Nat.pow_le_pow_right (by decide) (by omega)
    omega
  have hsmall : ((BitVec.ofBool u.bit).setWidth 64).toNat = u.bit.toNat := by
    cases u.bit <;> rfl
  rw [BitVec.toNat_or, BitVec.shiftLeft_eq', BitVec.toNat_shiftLeft, hidx, hsmall, h.ss, hexp,
    Nat.shiftLeft_eq, Nat.mod_eq_of_lt hword, ← Nat.shiftLeft_eq,
    ← Nat.shiftLeft_add_eq_or_of_lt hfits, Nat.shiftLeft_eq, Nat.pow_succ, Nat.add_mul]
  ac_rfl

/-- The values after a step. -/
theorem values_step (h : Dividing A B k u) (i : NuInput) : Values A B (k + 1) (u.tick i) := by
  have hk := h.more
  have hb := Nat.mod_lt (A.toNat / 2 ^ (64 - (k + 1))) (by decide : 0 < 2)
  have hstep := quotOf_step B.toNat k (prefixOf A.toNat 64 k) _ hb
  rw [← prefixOf_succ _ _ _ hk] at hstep
  have hlo := Nat.mod_lt (A.toNat * 2 ^ (k + 1)) (Nat.two_pow_pos 64)
  have htwice := twice_toNat h
  have hbit := bit_eq h
  have htick : u.tick i =
      { u with
        r := if u.bit then u.twice - u.d else u.twice
        ss := u.ss ||| (BitVec.ofBool u.bit).setWidth 64 <<< u.idx.setWidth 6
        state := if u.idx = 0 then .packOutput else .divide
        idx := u.idx - 1 } := by
    simp only [tick, h.state]
  rw [htick]
  refine ⟨h.d, ?_, ?_⟩
  · show (if u.bit then u.twice - u.d else u.twice).toNat = _
    rw [hstep.2, hbit]
    simp only [decide_eq_true_eq]
    split
    case isTrue hle =>
      have hge : u.d ≤ u.twice := by
        rw [BitVec.le_def, h.d, htwice]
        omega
      rw [BitVec.toNat_sub_of_le hge, h.d, htwice]
      omega
    case isFalse => exact htwice
  · show (u.ss ||| (BitVec.ofBool u.bit).setWidth 64 <<< u.idx.setWidth 6).toNat = _
    rw [ss_toNat h, hstep.1, hbit]
    congr 2
    split
    case isTrue hle =>
      rw [decide_eq_true hle]
      rfl
    case isFalse hgt =>
      rw [decide_eq_false hgt]
      rfl

theorem dividing_step (h : Dividing A B k u) (hk : k + 1 < 64) (i : NuInput) :
    Dividing A B (k + 1) (u.tick i) := by
  have hidx : ¬ u.idx = 0 := by
    intro hzero
    have := h.idx
    rw [hzero] at this
    simp at this
    omega
  refine ⟨values_step h i, ?_, hk, ?_⟩
  · simp only [tick, h.state, if_neg hidx]
  · have : (u.tick i).idx = u.idx - 1 := by simp only [tick, h.state]
    rw [this, BitVec.toNat_sub, h.idx]
    have := h.more
    show (2 ^ 8 - 1 + (63 - k)) % 2 ^ 8 = _
    omega

/-- The quotient and the remainder are there. -/
structure Packing (A B : BitVec 64) (u : NuDivider) : Prop extends Values A B 64 u where
  state : u.state = .packOutput

theorem packing_step (h : Dividing A B k u) (hk : k + 1 = 64) (i : NuInput) :
    Packing A B (u.tick i) := by
  have hidx : u.idx = 0 := by
    apply BitVec.eq_of_toNat_eq
    rw [h.idx]
    show 63 - k = 0
    omega
  have hvalues := values_step h i
  rw [hk] at hvalues
  refine ⟨hvalues, ?_⟩
  simp only [tick, h.state, if_pos hidx]

/-- The operands are in their registers. -/
structure Loaded (A B : BitVec 64) (u : NuDivider) : Prop where
  state : u.state = .clz
  d : u.d.toNat = 2 ^ 64 * B.toNat
  r : u.r.toNat = A.toNat
  ss : u.ss = 0
  idx : u.idx = 63

theorem clzR_toNat (h : Loaded A B u) :
    u.clzR.toNat = if A.toNat = 0 then 128 else 127 - A.toNat.size := by
  have hA := A.isLt
  have htwice : u.twice.toNat = A.toNat <<< 1 := by
    rw [twice, BitVec.toNat_concat, BitVec.toNat_setWidth, h.r, Nat.mod_eq_of_lt (by omega),
      Nat.shiftLeft_eq]
    rfl
  have hclz := countLeadingZeros_add_size 5 u.twice.toNat u.twice.isLt
  have hsize : u.twice.toNat.size = if A.toNat = 0 then 0 else A.toNat.size + 1 := by
    rw [htwice]
    split
    case isTrue hzero => rw [hzero]; rfl
    case isFalse hpos => exact Nat.size_shiftLeft hpos 1
  rw [clzR, BitVec.toNat_ofNat]
  by_cases hzero : A.toNat = 0
  · rw [if_pos hzero] at hsize ⊢
    omega
  · rw [if_neg hzero] at hsize ⊢
    omega

theorem clzD_toNat (h : Loaded A B u) :
    u.clzD.toNat = if B.toNat = 0 then 128 else 64 - B.toNat.size := by
  have hclz := countLeadingZeros_add_size 5 u.d.toNat u.d.isLt
  have hsize : u.d.toNat.size = if B.toNat = 0 then 0 else B.toNat.size + 64 := by
    rw [h.d, Nat.mul_comm, ← Nat.shiftLeft_eq]
    split
    case isTrue hzero => rw [hzero]; rfl
    case isFalse hpos => exact Nat.size_shiftLeft hpos 64
  rw [clzD, BitVec.toNat_ofNat]
  by_cases hzero : B.toNat = 0
  · rw [if_pos hzero] at hsize ⊢
    omega
  · rw [if_neg hzero] at hsize ⊢
    omega

theorem size_le (A : BitVec 64) : A.toNat.size ≤ 64 := Nat.size_le.mpr A.isLt

/-- The steps that the leading zeros skip have a zero in the quotient.  With a zero for a
dividend or a divisor the difference wraps or is too large, and nothing is skipped. -/
theorem delta_skips (h : Loaded A B u) (hdelta : u.clzDelta ≤ 64) :
    A.toNat * 2 ^ u.clzDelta.toNat < 2 ^ 64 * B.toNat ∨ u.clzDelta.toNat = 0 := by
  have hle : u.clzDelta.toNat ≤ 64 := hdelta
  have hsub : u.clzDelta.toNat = (2 ^ 8 - u.clzD.toNat + u.clzR.toNat) % 2 ^ 8 :=
    BitVec.toNat_sub _ _
  have hsizeA := size_le A
  have hsizeB := size_le B
  rw [clzR_toNat h, clzD_toNat h] at hsub
  by_cases hA : A.toNat = 0
  · by_cases hB : B.toNat = 0
    · rw [if_pos hA, if_pos hB] at hsub
      exact .inr hsub
    · left
      rw [hA, Nat.zero_mul]
      omega
  · by_cases hB : B.toNat = 0
    · rw [if_neg hA, if_pos hB] at hsub
      omega
    · left
      have hposB : 0 < B.toNat.size := Nat.size_pos.mpr (Nat.pos_of_ne_zero hB)
      rw [if_neg hA, if_neg hB] at hsub
      have hdiff : A.toNat.size + u.clzDelta.toNat = 64 + (B.toNat.size - 1) := by omega
      calc A.toNat * 2 ^ u.clzDelta.toNat
          < 2 ^ A.toNat.size * 2 ^ u.clzDelta.toNat :=
            Nat.mul_lt_mul_of_pos_right (Nat.lt_size_self _) (Nat.two_pow_pos _)
        _ = 2 ^ 64 * 2 ^ (B.toNat.size - 1) := by rw [← Nat.pow_add, hdiff, Nat.pow_add]
        _ ≤ 2 ^ 64 * B.toNat := Nat.mul_le_mul_left _ (Nat.lt_size.mp (by omega))

/-- What the shifted register holds. -/
theorem shifted_split {A k : Nat} (hk : k ≤ 64) :
    A * 2 ^ k = 2 ^ 64 * prefixOf A 64 k + A * 2 ^ k % 2 ^ 64 := by
  have hpow : 2 ^ 64 = 2 ^ (64 - k) * 2 ^ k := by rw [← Nat.pow_add, Nat.sub_add_cancel hk]
  have hdiv : A * 2 ^ k / 2 ^ 64 = prefixOf A 64 k := by
    rw [hpow, Nat.mul_div_mul_right _ _ (Nat.two_pow_pos k)]
    rfl
  rw [← hdiv]
  exact (Nat.div_add_mod _ _).symm

/-- The registers after a skip of `k` steps. -/
theorem values_skip (hd : u.d.toNat = 2 ^ 64 * B.toNat) (hss : u.ss = 0)
    (hr : u.r.toNat = A.toNat * 2 ^ k) (hk : k ≤ 64)
    (hskip : A.toNat * 2 ^ k < 2 ^ 64 * B.toNat ∨ k = 0) :
    Values A B k u := by
  have hsplit := shifted_split (A := A.toNat) hk
  have hnone : prefixOf A.toNat 64 0 = 0 := Nat.div_eq_of_lt A.isLt
  have hmod : prefixOf A.toNat 64 k % B.toNat = prefixOf A.toNat 64 k := by
    rcases hskip with hlt | rfl
    · exact Nat.mod_eq_of_lt (by omega)
    · rw [hnone, Nat.zero_mod]
  have hquot : quotOf B.toNat k (prefixOf A.toNat 64 k) = 0 := by
    rcases hskip with hlt | rfl
    · have hpos : B.toNat ≠ 0 := by omega
      rw [quotOf, if_neg hpos]
      exact Nat.div_eq_of_lt (by omega)
    · simp [quotOf, hnone]
  refine ⟨hd, ?_, ?_⟩
  · rw [hr, hmod]
    exact hsplit
  · rw [hss, hquot, Nat.zero_mul]
    rfl

/-- The skip. -/
theorem clz_step (h : Loaded A B u) (i : NuInput) :
    (∃ k, Dividing A B k (u.tick i)) ∨ Packing A B (u.tick i) := by
  by_cases hdelta : u.clzDelta ≤ 64
  · have hle : u.clzDelta.toNat ≤ 64 := hdelta
    have hidx : (u.idx - u.clzDelta).toNat = (2 ^ 8 - u.clzDelta.toNat + 63) % 2 ^ 8 := by
      rw [BitVec.toNat_sub, h.idx]
      rfl
    have htick : u.tick i =
        { u with
          r := u.r <<< u.clzDelta
          idx := u.idx - u.clzDelta
          state := if u.idx - u.clzDelta = 255 then .packOutput else .divide } := by
      simp only [tick, h.state, if_pos hdelta]
    have hr : (u.r <<< u.clzDelta).toNat = A.toNat * 2 ^ u.clzDelta.toNat := by
      have hA := A.isLt
      have hpow : 2 ^ u.clzDelta.toNat ≤ 2 ^ 64 := Nat.pow_le_pow_right (by decide) hle
      have hlt : A.toNat * 2 ^ u.clzDelta.toNat < 2 ^ 128 := by
        calc A.toNat * 2 ^ u.clzDelta.toNat < 2 ^ 64 * 2 ^ 64 :=
            Nat.mul_lt_mul_of_lt_of_le hA hpow (Nat.two_pow_pos _)
          _ = 2 ^ 128 := (Nat.pow_add 2 64 64).symm
      rw [BitVec.shiftLeft_eq', BitVec.toNat_shiftLeft, h.r, Nat.shiftLeft_eq,
        Nat.mod_eq_of_lt hlt]
    have hvalues : Values A B u.clzDelta.toNat (u.tick i) := by
      rw [htick]
      exact values_skip h.d h.ss hr hle (delta_skips h hdelta)
    by_cases hend : u.clzDelta.toNat = 64
    · right
      rw [hend] at hvalues
      refine ⟨hvalues, ?_⟩
      have hwrap : u.idx - u.clzDelta = 255 := by
        apply BitVec.eq_of_toNat_eq
        rw [hidx, hend]
        rfl
      rw [htick, if_pos hwrap]
    · left
      have hmore : u.clzDelta.toNat < 64 := by omega
      have hnat : (u.idx - u.clzDelta).toNat = 63 - u.clzDelta.toNat := by
        rw [hidx]
        omega
      have hwrap : ¬ u.idx - u.clzDelta = 255 := by
        intro heq
        rw [heq] at hnat
        simp at hnat
        omega
      refine ⟨u.clzDelta.toNat, hvalues, ?_, hmore, ?_⟩
      · rw [htick, if_neg hwrap]
      · rw [htick]
        exact hnat
  · left
    have htick : u.tick i = { u with state := .divide } := by
      simp only [tick, h.state, if_neg hdelta]
    rw [htick]
    refine ⟨0, values_skip h.d h.ss ?_ (by decide) (.inr rfl), rfl, by decide, ?_⟩
    · rw [Nat.pow_zero, Nat.mul_one]
      exact h.r
    · show u.idx.toNat = _
      rw [h.idx]
      rfl

end NuDivider

end Invariant

section Run

namespace NuDivider

variable {u : NuDivider} {i : Nat → NuInput} {A B : BitVec 64} {k c : Nat}
variable {a b : BitVec 64} {is32b isSignedDiv : Bool}

/-- What the divide does not change. -/
structure Signs (a b : BitVec 64) (is32b isSignedDiv : Bool) (u : NuDivider) : Prop where
  isSigned : u.isSigned = isSignedDiv
  sign : u.sign =
    ((extend is32b isSignedDiv a).msb ^^ (extend is32b isSignedDiv b).msb)
  remSign : u.remSign = (extend is32b isSignedDiv a).msb
  is32b : u.is32b = is32b

theorem Signs.tick (h : Signs a b is32b isSignedDiv u) (hbusy : u.state ≠ .idle) (j : NuInput) :
    Signs a b is32b isSignedDiv (u.tick j) := by
  unfold NuDivider.tick
  split
  case h_1 hidle => exact absurd hidle hbusy
  case h_2 => split <;> exact ⟨h.isSigned, h.sign, h.remSign, h.is32b⟩
  case h_3 => exact ⟨h.isSigned, h.sign, h.remSign, h.is32b⟩
  case h_4 => exact ⟨h.isSigned, h.sign, h.remSign, h.is32b⟩
  case h_5 =>
    split
    · exact h
    · exact ⟨h.isSigned, h.sign, h.remSign, h.is32b⟩

/-- What the unit packs. -/
theorem packed (hp : Packing (absA a is32b isSignedDiv) (absB b is32b isSignedDiv) u)
    (hs : Signs a b is32b isSignedDiv u) (j : NuInput) :
    (u.tick j).state = .waitForWb ∧ (u.tick j).y = settled a b is32b isSignedDiv := by
  have htick : u.tick j = { u with y := u.hi ++ u.lo, state := .waitForWb } := by
    simp only [tick, hp.state]
  have hall : prefixOf (absA a is32b isSignedDiv).toNat 64 64 =
      (absA a is32b isSignedDiv).toNat := prefixOf_all _ _
  have hr := hp.r
  have hss := hp.ss
  rw [hall] at hr hss
  have hhigh : u.high = absA a is32b isSignedDiv % absB b is32b isSignedDiv := by
    apply BitVec.eq_of_toNat_eq
    have hmod := Nat.mod_le (absA a is32b isSignedDiv).toNat (absB b is32b isSignedDiv).toNat
    have hA := (absA a is32b isSignedDiv).isLt
    rw [high, BitVec.toNat_setWidth, BitVec.toNat_ushiftRight, Nat.shiftRight_eq_div_pow, hr,
      BitVec.toNat_umod]
    omega
  have hquot : u.ss.toNat = quotOf (absB b is32b isSignedDiv).toNat 64
      (absA a is32b isSignedDiv).toNat := by
    rw [hss, Nat.sub_self, Nat.pow_zero, Nat.mul_one]
  rw [htick]
  refine ⟨rfl, ?_⟩
  show (u.hi ++ u.lo : BitVec (64 + 64)) = settled a b is32b isSignedDiv
  unfold hi lo pack
  rw [hs.is32b, hs.isSigned, hs.sign, hs.remSign, signed_quotOf u.ss hquot,
    signed_remainder u.high hhigh]
  rfl

/-- The steps that are left. -/
theorem dividing_run (h : Dividing A B k (u.run i c)) (j : Nat) (hj : k + j < 64) :
    Dividing A B (k + j) (u.run i (c + j)) := by
  induction j with
  | zero => exact h
  | succ j ih => exact dividing_step (ih (by omega)) hj (i (c + j))

/-- From the skip to the pack. -/
theorem packing_run (h : (∃ k, Dividing A B k (u.run i c)) ∨ Packing A B (u.run i c)) :
    ∃ n, n ≤ 64 ∧ Packing A B (u.run i (c + n)) ∧
      ∀ j < n, (u.run i (c + j)).state = .divide := by
  rcases h with ⟨k, hdiv⟩ | hpack
  · have hk := hdiv.more
    refine ⟨64 - k, by omega, ?_, fun j hj => (dividing_run hdiv j (by omega)).state⟩
    have hlast := dividing_run hdiv (63 - k) (by omega)
    have hexp : c + (64 - k) = c + (63 - k) + 1 := by omega
    have hend : k + (63 - k) + 1 = 64 := by omega
    rw [hexp]
    exact packing_step hlast hend (i (c + (63 - k)))
  · exact ⟨0, by omega, hpack, fun j hj => absurd hj (Nat.not_lt_zero j)⟩

/-- A divide starts in the first of these cycles. -/
structure Starts (a b : BitVec 64) (is32b isSignedDiv : Bool) (u : NuDivider)
    (i : Nat → NuInput) : Prop where
  idle : u.state = .idle
  startDiv : (i 0).startDiv = true
  srcA : (i 0).srcA = a
  srcB : (i 0).srcB = b
  is32b : (i 0).is32b = is32b
  isSignedDiv : (i 0).isSignedDiv = isSignedDiv

theorem loaded_run (h : Starts a b is32b isSignedDiv u i) :
    Loaded (absA a is32b isSignedDiv) (absB b is32b isSignedDiv) (u.run i 1) ∧
      Signs a b is32b isSignedDiv (u.run i 1) := by
  have hrun : u.run i 1 = u.load (i 0) := by
    show u.tick (i 0) = _
    simp only [tick, h.idle]
  rw [hrun]
  unfold load
  rw [h.startDiv, h.srcA, h.srcB, h.is32b, h.isSignedDiv]
  refine ⟨⟨rfl, ?_, ?_, rfl, rfl⟩, ⟨rfl, rfl, rfl, rfl⟩⟩
  · show (absB b is32b isSignedDiv ++ (0 : BitVec 64)).toNat = _
    rw [BitVec.toNat_append, Nat.shiftLeft_eq, Nat.mul_comm]
    exact Nat.or_zero _
  · show ((0 : BitVec 64) ++ absA a is32b isSignedDiv).toNat = _
    rw [BitVec.toNat_append]
    simp

/-- The cycles of a divide before it waits for a slot, and what it waits with. -/
theorem settling_run (h : Starts a b is32b isSignedDiv u i) :
    ∃ n ≤ 66, (∀ j ≤ n, (u.run i j).state ≠ .waitForWb) ∧
      (u.run i (n + 1)).state = .waitForWb ∧
      (u.run i (n + 1)).y = settled a b is32b isSignedDiv := by
  obtain ⟨hloaded, hsigns⟩ := loaded_run h
  have hskip := clz_step hloaded (i 1)
  obtain ⟨n, hn, hpack, hdivide⟩ := packing_run (c := 2) hskip
  have hkeep : ∀ j ≤ n, Signs a b is32b isSignedDiv (u.run i (2 + j)) := by
    intro j hj
    induction j with
    | zero => exact hsigns.tick (by rw [hloaded.state]; decide) (i 1)
    | succ j ih =>
      have hbusy : (u.run i (2 + j)).state ≠ .idle := by
        rw [hdivide j hj]
        decide
      exact (ih (by omega)).tick hbusy (i (2 + j))
  have hpacked := packed hpack (hkeep n (Nat.le_refl n)) (i (2 + n))
  refine ⟨2 + n, by omega, ?_, hpacked.1, hpacked.2⟩
  rintro (_ | _ | j) hj
  · show u.state ≠ _
    rw [h.idle]
    decide
  · rw [hloaded.state]
    decide
  · rw [Nat.add_comm j 2]
    rcases Nat.lt_or_ge j n with hlt | hge
    · rw [hdivide j hlt]
      decide
    · have heq : j = n := by omega
      rw [heq, hpack.state]
      decide

/-- The unit raises `complete` in this cycle, for the first time. -/
def CompletesAt (u : NuDivider) (i : Nat → NuInput) (m : Nat) : Prop :=
  (u.run i m).complete (i m) = true ∧ ∀ j < m, (u.run i j).complete (i j) = false

instance (u : NuDivider) (i : Nat → NuInput) (m : Nat) : Decidable (CompletesAt u i m) :=
  inferInstanceAs (Decidable (_ ∧ _))

/-- The result is held for as long as there is no slot. -/
theorem waiting_while {v : BitVec 128} {n : Nat}
    (h : (u.run i n).state = .waitForWb ∧ (u.run i n).y = v) (m : Nat) (hm : n ≤ m)
    (hfull : ∀ j, n ≤ j → j < m → (i j).wbSlotUsed = true) :
    (u.run i m).state = .waitForWb ∧ (u.run i m).y = v := by
  induction m, hm using Nat.le_induction with
  | base => exact h
  | succ m hm ih =>
    have hwait := ih fun j hj hjm => hfull j hj (by omega)
    have hused := hfull m hm (by omega)
    have hhold : u.run i (m + 1) = u.run i m := by
      show (u.run i m).tick (i m) = _
      simp only [tick, hwait.1, hused, if_true]
    rw [hhold]
    exact hwait

/-- A slot comes by after the steps of the divide, and the unit completes. -/
theorem completes_by (h : Starts a b is32b isSignedDiv u i) :
    ∃ n ≤ 66, (∀ j ≤ n, (u.run i j).state ≠ .waitForWb) ∧
      ∀ m, n < m → (i m).wbSlotUsed = false →
        ∃ l ≤ m, u.CompletesAt i l ∧ (u.run i l).y = settled a b is32b isSignedDiv := by
  obtain ⟨n, hn, hbefore, hwait⟩ := settling_run h
  refine ⟨n, hn, hbefore, fun m hm hfree => ?_⟩
  have hex : ∃ l, n < l ∧ (i l).wbSlotUsed = false := ⟨m, hm, hfree⟩
  obtain ⟨hlt, hslot⟩ := Nat.find_spec hex
  have hfull : ∀ j, n < j → j < Nat.find hex → (i j).wbSlotUsed = true := by
    intro j hj hjl
    have hnot := Nat.find_min hex hjl
    simpa [hj] using hnot
  have hlast := waiting_while hwait _ hlt fun j hj hjl => hfull j hj hjl
  refine ⟨Nat.find hex, Nat.find_min' hex ⟨hm, hfree⟩, ⟨?_, fun j hj => ?_⟩, hlast.2⟩
  · simp [complete, hlast.1, hslot]
  · rcases Nat.lt_or_ge n j with hgt | hle
    · simp [complete, hfull j hgt hj]
    · simp [complete, hbefore j hle]

/-- Where the unit completes, it has the result. -/
theorem y_of_completes (h : Starts a b is32b isSignedDiv u i) {m : Nat}
    (hat : u.CompletesAt i m) : (u.run i m).y = settled a b is32b isSignedDiv := by
  obtain ⟨n, -, hbefore, hslots⟩ := completes_by h
  obtain ⟨hdone, hfirst⟩ := hat
  obtain ⟨hstate, hfree⟩ : (u.run i m).state = .waitForWb ∧ (i m).wbSlotUsed = false := by
    simpa [complete] using hdone
  have hm : n < m := Nat.lt_of_not_le fun hle => hbefore m hle hstate
  obtain ⟨l, hl, hat, hy⟩ := hslots m hm hfree
  have heq : l = m := by
    refine Nat.le_antisymm hl (Nat.le_of_not_lt fun hlt => ?_)
    have hnot := hfirst l hlt
    rw [hat.1] at hnot
    cases hnot
  rw [← heq]
  exact hy

end NuDivider

end Run

section Agree

open NuDivider (Starts)

/-- An integer divide, on both units.  Each completes in the first cycle with a slot after its
steps, 67 cycles on at the latest, and what it has there does not depend on the slots or on
the steps it skipped.  By anything but zero it is the truncated quotient, and the remainder
with the sign of the dividend; by zero it is the same on both units. -/
theorem dividers_agree (a b : BitVec 64) (is32b isSignedDiv : Bool) :
    (∀ used m, (start a b is32b isSignedDiv).CompletesAt used m →
      (extend is32b isSignedDiv b ≠ 0 →
        ((start a b is32b isSignedDiv).run used m).y = expected a b is32b isSignedDiv) ∧
      ∀ (u : NuDivider) i l, Starts a b is32b isSignedDiv u i → u.CompletesAt i l →
        ((start a b is32b isSignedDiv).run used m).y = (u.run i l).y) ∧
      (∀ used m, 65 ≤ m → used m = false →
        ∃ l ≤ m, (start a b is32b isSignedDiv).CompletesAt used l) ∧
      ∀ (u : NuDivider) i m, Starts a b is32b isSignedDiv u i → 67 ≤ m →
        (i m).wbSlotUsed = false → ∃ l ≤ m, u.CompletesAt i l := by
  refine ⟨fun used m hat => ⟨fun hb => ?_, fun u i l hstart hnu => ?_⟩, ?_, ?_⟩
  · rw [Divider.y_of_completes hat, settled, if_neg hb]
    rfl
  · rw [Divider.y_of_completes hat, NuDivider.y_of_completes hstart hnu]
  · intro used m hm hfree
    have hsteps : nSteps a b is32b isSignedDiv ≤ 64 := steps_le
    obtain ⟨l, hl, hat, -⟩ :=
      @Divider.completes_by a b is32b isSignedDiv used m (by omega) hfree
    exact ⟨l, hl, hat⟩
  · intro u i m hstart hm hfree
    obtain ⟨n, hn, -, hslots⟩ := NuDivider.completes_by hstart
    obtain ⟨l, hl, hat, -⟩ := hslots m (by omega) hfree
    exact ⟨l, hl, hat⟩

/-- A unit that waits for a divide. -/
def blank : NuDivider where
  state := .idle
  isSigned := false
  sign := false
  remSign := false
  y := 0
  d := 0
  r := 0
  ss := 0
  is32b := false
  idx := 0

/-- The least word by minus one, in 32 bits, with a free slot throughout. -/
theorem dividers_agree_least :
    let a := 0x80000000#64
    let b := 0xFFFFFFFF#64
    let i : NuInput :=
      { wbSlotUsed := false, srcA := a, srcB := b, is32b := true, isSignedDiv := true,
        startDiv := true }
    ((start a b true true).run (fun _ => false) 33).y =
        0x0000000000000000FFFFFFFF80000000#128 ∧
      ((start a b true true).run (fun _ => false) 33).y = (blank.run (fun _ => i) 35).y := by
  intro a b i
  have hagree := (dividers_agree a b true true).1 (fun _ => false) 33 (by decide +kernel)
  refine ⟨(hagree.1 (by decide)).trans (by decide), ?_⟩
  exact hagree.2 blank (fun _ => i) 35 ⟨rfl, rfl, rfl, rfl, rfl, rfl⟩ (by decide +kernel)

end Agree

end Exec

end R9999
