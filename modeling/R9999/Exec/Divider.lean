import Mathlib.Data.Nat.Find
import Mathlib.Tactic.SplitIfs
import R9999.Hw.Arith

/-!
# The integer side of the divider

`uni_divider.sv`, less what it does for floating point.  A divide takes magnitudes, runs the
restoring recurrence for 8, 16, 32 or 64 steps by how many of the top bits of the dividend
are zero, puts the signs back, and waits for a free slot of the write port.  `flush` is left
out: an operation that retires has not been flushed.
-/

open Hw

namespace R9999

namespace Exec

/-- `state_t`, but for the states of the floating-point side. -/
inductive DivState where
  | idle | iter | intPack | intWaitwb
  deriving DecidableEq, Repr

/-- The registers of the unit. -/
structure Divider where
  state : DivState
  /-- The partial remainder, with the next bit of the dividend in it. -/
  rem : BitVec 66
  q : BitVec 64
  opb : BitVec 64
  src : BitVec 64
  cnt : BitVec 6
  last : BitVec 6
  isSigned : Bool
  sign : Bool
  remSign : Bool
  is32b : Bool

section Operands

variable (is32b isSignedDiv : Bool) (src : BitVec 64)

/-- `t_extA` and `t_extB`. -/
def extend : BitVec 64 :=
  if is32b then
    if isSignedDiv then (src.setWidth 32).signExtend 64 else (src.setWidth 32).setWidth 64
  else src

/-- `t_absA` and `t_absB`, of an extended operand. -/
def magnitude (ext : BitVec 64) : BitVec 64 :=
  if isSignedDiv && ext.msb then ~~~ext + 1 else ext

end Operands

section Skip

variable (absA absB : BitVec 64)

/-- `t_skip8`, `t_skip16` and `t_skip32`. -/
def skips (n : Nat) : Bool := absA >>> n == 0 && absB != 0

/-- The number of steps. -/
def steps : Nat :=
  if skips absA absB 8 then 8
  else if skips absA absB 16 then 16
  else if skips absA absB 32 then 32
  else 64

/-- `t_int_src`. -/
def intSrc : BitVec 64 :=
  if skips absA absB 8 then absA.setWidth 8 ++ (0 : BitVec 56)
  else if skips absA absB 16 then absA.setWidth 16 ++ (0 : BitVec 48)
  else if skips absA absB 32 then absA.setWidth 32 ++ (0 : BitVec 32)
  else absA

end Skip

namespace Divider

/-- The start of a divide. -/
def start (srcA srcB : BitVec 64) (is32b isSignedDiv : Bool) : Divider :=
  let extA := extend is32b isSignedDiv srcA
  let extB := extend is32b isSignedDiv srcB
  let absA := magnitude isSignedDiv extA
  let absB := magnitude isSignedDiv extB
  let t := intSrc absA absB
  { state := .iter
    rem := (0 : BitVec 65).concat (t.getLsbD 63)
    q := 0
    opb := absB
    src := (t.setWidth 63).concat false
    cnt := 0
    last := BitVec.ofNat 6 (steps absA absB - 1)
    isSigned := isSignedDiv
    sign := extA.msb ^^ extB.msb
    remSign := extA.msb
    is32b }

variable (d : Divider)

/-- `w_diff`. -/
def diff : BitVec 67 := d.rem.setWidth 67 - d.opb.setWidth 67

/-- `w_bit`: the divisor goes into the partial remainder. -/
def bit : Bool := !d.diff.msb

/-- `w_sel`. -/
def sel : BitVec 66 := if d.bit then d.diff.setWidth 66 else d.rem

/-- The sign-extended word of a 32-bit divide. -/
def pack (v : BitVec 64) : BitVec 64 := if d.is32b then (v.setWidth 32).signExtend 64 else v

/-- `t_lo`. -/
def lo : BitVec 64 := d.pack (if d.isSigned && d.sign then ~~~d.q + 1 else d.q)

/-- `t_hi`. -/
def hi : BitVec 64 :=
  d.pack (if d.isSigned && d.remSign then ~~~(d.rem.setWidth 64) + 1 else d.rem.setWidth 64)

/-- A clock cycle in which no divide starts. -/
def next (wbSlotUsed : Bool) : Divider :=
  match d.state with
  | .idle => { d with cnt := 0, q := 0 }
  | .iter =>
    let q := (d.q.setWidth 63).concat d.bit
    let cnt := d.cnt + 1
    let src := (d.src.setWidth 63).concat false
    if d.cnt = d.last then { d with q, cnt, src, rem := d.sel, state := .intPack }
    else { d with q, cnt, src, rem := (d.sel.setWidth 65).concat d.src.msb }
  | .intPack => { d with q := d.lo, rem := d.hi.setWidth 66, state := .intWaitwb }
  | .intWaitwb => if wbSlotUsed then d else { d with state := .idle }

/-- `complete`. -/
def complete (wbSlotUsed : Bool) : Bool := d.state = .intWaitwb && !wbSlotUsed

/-- `y`: the remainder and the quotient. -/
def y : BitVec 128 := d.rem.setWidth 64 ++ d.q

/-- The unit after some cycles. -/
def run (wbSlotUsed : Nat → Bool) : Nat → Divider
  | 0 => d
  | n + 1 => (run wbSlotUsed n).next (wbSlotUsed n)

end Divider

/-- What a divide comes to.  It has it after 65 cycles at most, and holds it for as long as
there is no slot. -/
def divide (srcA srcB : BitVec 64) (is32b isSignedDiv : Bool) : BitVec 128 :=
  ((Divider.start srcA srcB is32b isSignedDiv).run (fun _ => true) 65).y

section Skip

variable {absA absB : BitVec 64}

theorem skips_iff {n : Nat} :
    skips absA absB n = true ↔ absA.toNat < 2 ^ n ∧ absB ≠ 0 := by
  unfold skips
  rw [Bool.and_eq_true, beq_iff_eq, bne_iff_ne]
  refine and_congr_left fun _ => ?_
  rw [← BitVec.toNat_inj, BitVec.toNat_ushiftRight, Nat.shiftRight_eq_div_pow]
  show _ = 0 ↔ _
  rw [Nat.div_eq_zero_iff]
  have := Nat.two_pow_pos n
  omega

theorem steps_le : steps absA absB ≤ 64 := by
  unfold steps
  split_ifs <;> omega

theorem steps_pos : 0 < steps absA absB := by
  unfold steps
  split_ifs <;> omega

theorem lt_two_pow_steps : absA.toNat < 2 ^ steps absA absB := by
  unfold steps
  split_ifs with h8 h16 h32
  · exact (skips_iff.mp h8).1
  · exact (skips_iff.mp h16).1
  · exact (skips_iff.mp h32).1
  · exact absA.isLt

/-- The lower bits of a word, put at its top. -/
theorem top_eq_shiftLeft (a : BitVec 64) (n m : Nat) (h : n + m = 64) :
    (a.setWidth n ++ (0 : BitVec m)).cast h = a <<< m := by
  apply BitVec.eq_of_getLsbD_eq
  intro i hi
  simp only [BitVec.getLsbD_cast, BitVec.getLsbD_append, BitVec.getLsbD_setWidth,
    BitVec.getLsbD_shiftLeft]
  by_cases hlt : i < m
  · simp [hlt]
  · have hn : i - m < n := by omega
    simp [hlt, hn, hi]

theorem intSrc_eq : intSrc absA absB = absA <<< (64 - steps absA absB) := by
  unfold intSrc steps
  split_ifs with h8 h16 h32
  · exact top_eq_shiftLeft absA 8 56 rfl
  · exact top_eq_shiftLeft absA 16 48 rfl
  · exact top_eq_shiftLeft absA 32 32 rfl
  · exact (BitVec.shiftLeft_zero absA).symm

end Skip

namespace Divider

variable {d : Divider} {A B : BitVec 64} {n k : Nat}

/-- The unit has taken `k` of the `n` bits of the dividend, and has the next one in the
partial remainder. -/
structure Iterating (A B : BitVec 64) (n k : Nat) (d : Divider) : Prop where
  state : d.state = .iter
  more : k < n
  le : n ≤ 64
  fits : A.toNat < 2 ^ n
  opb : d.opb = B
  q : d.q.toNat = prefixOf A.toNat n k / B.toNat
  rem : d.rem.toNat = 2 * (prefixOf A.toNat n k % B.toNat) + A.toNat / 2 ^ (n - (k + 1)) % 2
  src : d.src = A <<< (64 - n + (k + 1))
  cnt : d.cnt = BitVec.ofNat 6 k
  last : d.last = BitVec.ofNat 6 (n - 1)

theorem rem_lt (h : Iterating A B n k d) (hB : 0 < B.toNat) : d.rem.toNat < 2 * B.toNat := by
  have hmod := Nat.mod_lt (prefixOf A.toNat n k) hB
  rw [h.rem]
  omega

/-- The comparison is the sign of the difference. -/
theorem bit_eq (h : Iterating A B n k d) (hB : 0 < B.toNat) :
    d.bit = decide (B.toNat ≤ d.rem.toNat) := by
  have hlt := rem_lt h hB
  have hBlt := B.isLt
  have hsub : d.diff.toNat = (2 ^ 67 - B.toNat + d.rem.toNat) % 2 ^ 67 := by
    rw [diff, h.opb, BitVec.toNat_sub, BitVec.toNat_setWidth, BitVec.toNat_setWidth,
      Nat.mod_eq_of_lt (by omega : B.toNat < 2 ^ 67),
      Nat.mod_eq_of_lt (by omega : d.rem.toNat < 2 ^ 67)]
  rw [bit, BitVec.msb_eq_decide, hsub, ← decide_not, decide_eq_decide]
  omega

theorem sel_toNat (h : Iterating A B n k d) (hB : 0 < B.toNat) :
    d.sel.toNat = if B.toNat ≤ d.rem.toNat then d.rem.toNat - B.toNat else d.rem.toNat := by
  have hlt := rem_lt h hB
  have hBlt := B.isLt
  rw [sel, bit_eq h hB]
  simp only [decide_eq_true_eq]
  split
  case isTrue hle =>
    rw [diff, h.opb, BitVec.toNat_setWidth, BitVec.toNat_sub, BitVec.toNat_setWidth,
      BitVec.toNat_setWidth, Nat.mod_eq_of_lt (by omega : B.toNat < 2 ^ 67),
      Nat.mod_eq_of_lt (by omega : d.rem.toNat < 2 ^ 67)]
    omega
  case isFalse => rfl

/-- The quotient and the remainder of the prefix with one more bit. -/
theorem step_values (h : Iterating A B n k d) (hB : 0 < B.toNat) :
    ((d.q.setWidth 63).concat d.bit).toNat = prefixOf A.toNat n (k + 1) / B.toNat ∧
      d.sel.toNat = prefixOf A.toNat n (k + 1) % B.toNat := by
  have hbit := Nat.mod_lt (A.toNat / 2 ^ (n - (k + 1))) (by decide : 0 < 2)
  have hstep := prefix_step B.toNat (prefixOf A.toNat n k) _ hB hbit
  rw [← h.rem, ← prefixOf_succ _ _ _ h.more, ← h.q] at hstep
  refine ⟨?_, ?_⟩
  · -- the quotient so far leaves room for one more bit
    have hq : d.q.toNat < 2 ^ 63 := by
      have hone : 1 ≤ n - k := Nat.sub_pos_of_lt h.more
      have hpos : 2 ^ 1 ≤ 2 ^ (n - k) := Nat.pow_le_pow_right (by decide) hone
      have hprefixOf : prefixOf A.toNat n k ≤ A.toNat / 2 ^ 1 := Nat.div_le_div_left hpos (by decide)
      have hdiv := Nat.div_le_self (prefixOf A.toNat n k) B.toNat
      have hA := A.isLt
      rw [h.q]
      omega
    rw [hstep.1, BitVec.toNat_concat, BitVec.toNat_setWidth, Nat.mod_eq_of_lt hq, bit_eq h hB]
    by_cases hle : B.toNat ≤ d.rem.toNat <;> simp [hle] <;> omega
  · rw [hstep.2, sel_toNat h hB]

/-- The top bit of a shifted word. -/
theorem shiftLeft_msb (v : BitVec 64) {m : Nat} (hm : m ≤ 63) :
    (v <<< m).msb.toNat = v.toNat / 2 ^ (63 - m) % 2 := by
  have hge : ¬ 63 < m := by omega
  rw [BitVec.msb_eq_getLsbD_last, BitVec.getLsbD_shiftLeft, ← Nat.toNat_testBit]
  simp [hge, BitVec.getLsbD]

/-- The bit that the source register gives. -/
theorem src_msb (h : Iterating A B n k d) (hk : k + 1 < n) :
    d.src.msb.toNat = A.toNat / 2 ^ (n - (k + 1 + 1)) % 2 := by
  have hle := h.le
  have hpos : 64 - n + (k + 1) ≤ 63 := by omega
  have hidx : 63 - (64 - n + (k + 1)) = n - (k + 1 + 1) := by omega
  rw [h.src, shiftLeft_msb A hpos, hidx]

/-- The source register shifts by one. -/
theorem concat_shiftLeft (v : BitVec 64) (m : Nat) :
    ((v <<< m).setWidth 63).concat false = v <<< (m + 1) := by
  apply BitVec.eq_of_getLsbD_eq
  intro i hi
  rcases i with _ | i
  · simp
  · simp only [BitVec.getLsbD_concat, BitVec.getLsbD_setWidth, BitVec.getLsbD_shiftLeft]
    have hi63 : i < 63 := by omega
    have hi64 : i < 64 := by omega
    have hsub : i + 1 - (m + 1) = i - m := by omega
    simp [hi, hi63, hi64, hsub]

/-- A step but for the last. -/
theorem iterating_next (h : Iterating A B n k d) (hB : 0 < B.toNat) (hk : k + 1 < n)
    (used : Bool) : Iterating A B n (k + 1) (d.next used) := by
  have hle := h.le
  have hvalues := step_values h hB
  have hmsb := src_msb h hk
  have hcnt : ¬ d.cnt = d.last := by
    rw [h.cnt, h.last]
    intro heq
    have hnat := congrArg BitVec.toNat heq
    simp only [BitVec.toNat_ofNat] at hnat
    omega
  have hnext : d.next used =
      { d with
        q := (d.q.setWidth 63).concat d.bit
        cnt := d.cnt + 1
        src := (d.src.setWidth 63).concat false
        rem := (d.sel.setWidth 65).concat d.src.msb } := by
    simp only [next, h.state, if_neg hcnt]
  rw [hnext]
  refine ⟨h.state, hk, hle, h.fits, h.opb, hvalues.1, ?_, ?_, ?_, h.last⟩
  · have hsel := Nat.mod_lt (prefixOf A.toNat n (k + 1)) hB
    have hBlt := B.isLt
    have hshort : d.sel.toNat < 2 ^ 65 := by omega
    show ((d.sel.setWidth 65).concat d.src.msb).toNat = _
    rw [BitVec.toNat_concat, BitVec.toNat_setWidth, Nat.mod_eq_of_lt hshort, hvalues.2, hmsb]
    omega
  · show (d.src.setWidth 63).concat false = _
    rw [h.src]
    exact concat_shiftLeft A _
  · show d.cnt + 1 = _
    rw [h.cnt]
    exact (BitVec.ofNat_add k 1).symm

/-- The last step leaves the quotient and the remainder. -/
theorem packing_next (h : Iterating A B n k d) (hB : 0 < B.toNat) (hk : k + 1 = n)
    (used : Bool) :
    (d.next used).state = .intPack ∧ (d.next used).q = A / B ∧
      (d.next used).rem.setWidth 64 = A % B := by
  have hvalues := step_values h hB
  have hall : prefixOf A.toNat n (k + 1) = A.toNat := by rw [hk, prefixOf_all]
  rw [hall] at hvalues
  have hcnt : d.cnt = d.last := by
    rw [h.cnt, h.last, ← hk]
    rfl
  have hnext : d.next used =
      { d with
        q := (d.q.setWidth 63).concat d.bit
        cnt := d.cnt + 1
        src := (d.src.setWidth 63).concat false
        rem := d.sel
        state := .intPack } := by
    simp only [next, h.state, if_pos hcnt]
  rw [hnext]
  refine ⟨rfl, BitVec.eq_of_toNat_eq ?_, BitVec.eq_of_toNat_eq ?_⟩
  · rw [BitVec.toNat_udiv]
    exact hvalues.1
  · have hlt := Nat.mod_lt A.toNat hB
    have hBlt := B.isLt
    show (d.sel.setWidth 64).toNat = _
    rw [BitVec.toNat_setWidth, hvalues.2, BitVec.toNat_umod]
    omega

/-- What the unit holds while it waits for a slot. -/
structure Waiting (v : BitVec 128) (d : Divider) : Prop where
  state : d.state = .intWaitwb
  y : d.y = v

/-- The signs are put back. -/
theorem waiting_next (hstate : d.state = .intPack) (used : Bool) :
    Waiting (d.hi ++ d.lo) (d.next used) := by
  have hnext : d.next used =
      { d with q := d.lo, rem := d.hi.setWidth 66, state := .intWaitwb } := by
    simp only [next, hstate]
  refine ⟨by rw [hnext], ?_⟩
  rw [hnext]
  show ((d.hi.setWidth 66).setWidth 64 ++ d.lo : BitVec (64 + 64)) = _
  rw [BitVec.setWidth_setWidth_of_le _ (by decide), BitVec.setWidth_eq]

/-- The result is held until there is a slot. -/
theorem waiting_hold {v : BitVec 128} (h : Waiting v d) : Waiting v (d.next true) := by
  have hnext : d.next true = d := by simp [next, h.state]
  rwa [hnext]

section Start

variable (a b : BitVec 64) (is32b isSignedDiv : Bool)

/-- The magnitude of the dividend. -/
abbrev absA : BitVec 64 := magnitude isSignedDiv (extend is32b isSignedDiv a)

/-- The magnitude of the divisor. -/
abbrev absB : BitVec 64 := magnitude isSignedDiv (extend is32b isSignedDiv b)

/-- The number of steps of a divide. -/
abbrev nSteps : Nat := steps (absA a is32b isSignedDiv) (absB b is32b isSignedDiv)

/-- What the recurrence does not change. -/
structure Keeps (d : Divider) : Prop where
  isSigned : d.isSigned = isSignedDiv
  sign : d.sign =
    ((extend is32b isSignedDiv a).msb ^^ (extend is32b isSignedDiv b).msb)
  remSign : d.remSign = (extend is32b isSignedDiv a).msb
  is32b : d.is32b = is32b

variable {a b is32b isSignedDiv}

theorem Keeps.next {d : Divider} (h : Keeps a b is32b isSignedDiv d) (used : Bool) :
    Keeps a b is32b isSignedDiv (d.next used) := by
  unfold Divider.next
  split
  · exact ⟨h.isSigned, h.sign, h.remSign, h.is32b⟩
  · dsimp only
    split <;> exact ⟨h.isSigned, h.sign, h.remSign, h.is32b⟩
  · exact ⟨h.isSigned, h.sign, h.remSign, h.is32b⟩
  · split
    · exact h
    · exact ⟨h.isSigned, h.sign, h.remSign, h.is32b⟩

theorem keeps_run (used : Nat → Bool) (m : Nat) :
    Keeps a b is32b isSignedDiv ((start a b is32b isSignedDiv).run used m) := by
  induction m with
  | zero => exact ⟨rfl, rfl, rfl, rfl⟩
  | succ m ih => exact ih.next (used m)

theorem iterating_start :
    Iterating (absA a is32b isSignedDiv) (absB b is32b isSignedDiv)
      (nSteps a b is32b isSignedDiv) 0 (start a b is32b isSignedDiv) := by
  generalize hA : absA a is32b isSignedDiv = A
  generalize hB : absB b is32b isSignedDiv = B
  have hn : nSteps a b is32b isSignedDiv = steps A B := by rw [nSteps, hA, hB]
  have hsrc : intSrc A B = A <<< (64 - steps A B) := intSrc_eq
  have hle : steps A B ≤ 64 := steps_le
  have hpos : 0 < steps A B := steps_pos
  have hlt : A.toNat < 2 ^ steps A B := lt_two_pow_steps
  have hprefixOf : prefixOf A.toNat (steps A B) 0 = 0 := Nat.div_eq_of_lt hlt
  rw [hn]
  refine ⟨rfl, hpos, hle, hlt, hB, ?_, ?_, ?_, rfl, ?_⟩
  · rw [hprefixOf, Nat.zero_div]
    rfl
  · show ((0 : BitVec 65).concat
      ((intSrc (absA a is32b isSignedDiv) (absB b is32b isSignedDiv)).getLsbD 63)).toNat = _
    have hidx : 63 - (64 - steps A B) = steps A B - (0 + 1) := by omega
    have hge : ¬ 63 < 64 - steps A B := by omega
    rw [hA, hB, hsrc, hprefixOf, BitVec.toNat_concat, BitVec.getLsbD_shiftLeft, hidx]
    simp only [BitVec.getLsbD]
    rw [← Nat.toNat_testBit]
    simp [hge]
  · show ((intSrc (absA a is32b isSignedDiv) (absB b is32b isSignedDiv)).setWidth 63).concat
      false = _
    rw [hA, hB, hsrc]
    exact concat_shiftLeft A _
  · show BitVec.ofNat 6 (nSteps a b is32b isSignedDiv - 1) = _
    rw [hn]

theorem iterating_run (hB : 0 < (absB b is32b isSignedDiv).toNat) (used : Nat → Bool) (k : Nat)
    (hk : k < nSteps a b is32b isSignedDiv) :
    Iterating (absA a is32b isSignedDiv) (absB b is32b isSignedDiv)
      (nSteps a b is32b isSignedDiv) k ((start a b is32b isSignedDiv).run used k) := by
  induction k with
  | zero => exact iterating_start
  | succ k ih => exact iterating_next (ih (by omega)) hB hk (used k)

/-- A signed operand and its magnitude. -/
theorem magnitude_false (ext : BitVec 64) : magnitude false ext = ext := by simp [magnitude]

theorem magnitude_true (ext : BitVec 64) :
    magnitude true ext = if ext.msb then -ext else ext := by
  simp [magnitude, BitVec.neg_eq_not_add]

/-- The quotient and the remainder, as numbers of the operands' signs. -/
def quotient (a b : BitVec 64) (is32b isSignedDiv : Bool) : BitVec 64 :=
  let extA := extend is32b isSignedDiv a
  let extB := extend is32b isSignedDiv b
  if isSignedDiv then extA.sdiv extB else extA / extB

/-- The remainder has the sign of the dividend. -/
def remainder (a b : BitVec 64) (is32b isSignedDiv : Bool) : BitVec 64 :=
  let extA := extend is32b isSignedDiv a
  let extB := extend is32b isSignedDiv b
  if isSignedDiv then extA.srem extB else extA % extB

/-- The word of a 32-bit divide, sign-extended. -/
def word (is32b : Bool) (v : BitVec 64) : BitVec 64 :=
  if is32b then (v.setWidth 32).signExtend 64 else v

/-- What a divide comes to, in terms of the operands. -/
def expected (a b : BitVec 64) (is32b isSignedDiv : Bool) : BitVec 128 :=
  word is32b (remainder a b is32b isSignedDiv) ++ word is32b (quotient a b is32b isSignedDiv)

/-- The signs put back on the remainder of the magnitudes. -/
theorem signed_remainder (r : BitVec 64)
    (hr : r = absA a is32b isSignedDiv % absB b is32b isSignedDiv) :
    (if isSignedDiv && (extend is32b isSignedDiv a).msb then ~~~r + 1 else r) =
      remainder a b is32b isSignedDiv := by
  unfold remainder
  rw [hr]
  dsimp only [absA, absB]
  generalize extend is32b isSignedDiv a = x
  generalize extend is32b isSignedDiv b = z
  cases isSignedDiv with
  | false => simp [magnitude_false]
  | true =>
    rw [magnitude_true, magnitude_true, BitVec.srem_eq]
    cases x.msb <;> cases z.msb <;> simp [BitVec.neg_eq_not_add]

/-- The signs put back on the quotient of the magnitudes. -/
theorem signed_quotient (q : BitVec 64)
    (hq : q = absA a is32b isSignedDiv / absB b is32b isSignedDiv) :
    (if isSignedDiv && ((extend is32b isSignedDiv a).msb ^^ (extend is32b isSignedDiv b).msb)
      then ~~~q + 1 else q) = quotient a b is32b isSignedDiv := by
  unfold quotient
  rw [hq]
  dsimp only [absA, absB]
  generalize extend is32b isSignedDiv a = x
  generalize extend is32b isSignedDiv b = z
  cases isSignedDiv with
  | false => simp [magnitude_false]
  | true =>
    rw [magnitude_true, magnitude_true, BitVec.sdiv_eq]
    cases x.msb <;> cases z.msb <;> simp [BitVec.neg_eq_not_add]

theorem lo_eq (h : Keeps a b is32b isSignedDiv d)
    (hq : d.q = absA a is32b isSignedDiv / absB b is32b isSignedDiv) :
    d.lo = word is32b (quotient a b is32b isSignedDiv) := by
  unfold lo pack word
  rw [h.is32b, h.isSigned, h.sign, signed_quotient d.q hq]

theorem hi_eq (h : Keeps a b is32b isSignedDiv d)
    (hrem : d.rem.setWidth 64 = absA a is32b isSignedDiv % absB b is32b isSignedDiv) :
    d.hi = word is32b (remainder a b is32b isSignedDiv) := by
  unfold hi pack word
  rw [h.is32b, h.isSigned, h.remSign, signed_remainder _ hrem]

/-- A divide by anything but zero waits for a slot after its steps. -/
theorem waiting_run (hB : 0 < (absB b is32b isSignedDiv).toNat) (used : Nat → Bool) (m : Nat)
    (hm : nSteps a b is32b isSignedDiv < m)
    (hfull : ∀ j, nSteps a b is32b isSignedDiv < j → j < m → used j = true) :
    Waiting (expected a b is32b isSignedDiv) ((start a b is32b isSignedDiv).run used m) := by
  induction m with
  | zero => omega
  | succ m ih =>
    by_cases hlast : m = nSteps a b is32b isSignedDiv
    · -- the cycle after the last step
      have hpos : 0 < nSteps a b is32b isSignedDiv := steps_pos
      obtain ⟨k, rfl⟩ : ∃ k, m = k + 1 := ⟨m - 1, by omega⟩
      have hpack := packing_next (iterating_run hB used k (by omega)) hB hlast (used k)
      have hkeep := (@keeps_run a b is32b isSignedDiv used k).next (used k)
      have hwait := waiting_next hpack.1 (used (k + 1))
      rw [lo_eq hkeep hpack.2.1, hi_eq hkeep hpack.2.2] at hwait
      exact hwait
    · have hwait := ih (by omega) fun j hj hjm => hfull j hj (by omega)
      have hused := hfull m (by omega) (by omega)
      show Waiting _ (((start a b is32b isSignedDiv).run used m).next (used m))
      rw [hused]
      exact waiting_hold hwait

/-- A divide comes to the quotient and the remainder. -/
theorem divide_eq (hB : 0 < (absB b is32b isSignedDiv).toNat) :
    divide a b is32b isSignedDiv = expected a b is32b isSignedDiv := by
  have hle : nSteps a b is32b isSignedDiv ≤ 64 := steps_le
  exact (waiting_run hB (fun _ => true) 65 (by omega) fun _ _ _ => rfl).y

/-- The magnitude of an operand is zero for zero alone. -/
theorem magnitude_eq_zero (isSignedDiv : Bool) (ext : BitVec 64) :
    magnitude isSignedDiv ext = 0 ↔ ext = 0 := by
  cases isSignedDiv with
  | false => rw [magnitude_false]
  | true =>
    rw [magnitude_true]
    split
    · exact BitVec.neg_eq_zero_iff
    · exact Iff.rfl

end Start

/-- The unit completes in the first cycle after its steps with a slot, in none before, and
has what the divide comes to. -/
theorem run_completes {a b : BitVec 64} {is32b isSignedDiv : Bool}
    (hb : extend is32b isSignedDiv b ≠ 0) (used : Nat → Bool) (m : Nat)
    (hm : nSteps a b is32b isSignedDiv < m) (hfree : used m = false)
    (hfull : ∀ j, nSteps a b is32b isSignedDiv < j → j < m → used j = true) :
    ((start a b is32b isSignedDiv).run used m).complete (used m) = true ∧
      ((start a b is32b isSignedDiv).run used m).y = divide a b is32b isSignedDiv ∧
      ∀ j < m, ((start a b is32b isSignedDiv).run used j).complete (used j) = false := by
  have hB : 0 < (absB b is32b isSignedDiv).toNat := by
    rw [Nat.pos_iff_ne_zero]
    intro hzero
    exact hb ((magnitude_eq_zero isSignedDiv _).mp (BitVec.eq_of_toNat_eq hzero))
  have hwait := waiting_run hB used m hm hfull
  refine ⟨?_, ?_, ?_⟩
  · simp [complete, hwait.state, hfree]
  · rw [hwait.y, divide_eq hB]
  · intro j hj
    rcases Nat.lt_trichotomy j (nSteps a b is32b isSignedDiv) with hlt | heq | hgt
    · simp [complete, (iterating_run hB used j hlt).state]
    · have hpos : 0 < nSteps a b is32b isSignedDiv := steps_pos
      obtain ⟨k, rfl⟩ : ∃ k, j = k + 1 := ⟨j - 1, by omega⟩
      have hpack := packing_next (iterating_run hB used k (by omega)) hB heq (used k)
      simp [complete, run, hpack.1]
    · simp [complete, hfull j hgt hj]

section ByZero

variable {d : Divider} {A : BitVec 64} {k : Nat}

/-- A divide by zero.  Every comparison comes out true, and the partial remainder takes the
whole dividend. -/
structure Taking (A : BitVec 64) (k : Nat) (d : Divider) : Prop where
  state : d.state = .iter
  more : k < 64
  opb : d.opb = 0
  q : d.q.toNat = 2 ^ k - 1
  rem : d.rem.toNat = prefixOf A.toNat 64 (k + 1)
  src : d.src = A <<< (k + 1)
  cnt : d.cnt = BitVec.ofNat 6 k
  last : d.last = BitVec.ofNat 6 63

theorem taking_bit (h : Taking A k d) : d.bit = true ∧ d.sel = d.rem := by
  have hdiff : d.diff = d.rem.setWidth 67 := by rw [diff, h.opb]; simp
  have hbit : d.bit = true := by
    have hrem := d.rem.isLt
    rw [bit, hdiff, BitVec.msb_eq_decide, BitVec.toNat_setWidth, ← decide_not, decide_eq_true_eq]
    omega
  refine ⟨hbit, ?_⟩
  rw [sel, if_pos hbit, hdiff, BitVec.setWidth_setWidth_of_le _ (by decide), BitVec.setWidth_eq]

theorem taking_q (h : Taking A k d) :
    ((d.q.setWidth 63).concat d.bit).toNat = 2 ^ (k + 1) - 1 := by
  have hk := h.more
  have hpow : 2 ^ k ≤ 2 ^ 63 := Nat.pow_le_pow_right (by decide) (by omega)
  have hpos := Nat.two_pow_pos k
  rw [(taking_bit h).1, BitVec.toNat_concat, BitVec.toNat_setWidth, h.q,
    Nat.mod_eq_of_lt (by omega), Nat.pow_succ]
  simp only [Bool.toNat_true]
  omega

theorem taking_next (h : Taking A k d) (hk : k + 1 < 64) (used : Bool) :
    Taking A (k + 1) (d.next used) := by
  have hbit := taking_bit h
  have hcnt : ¬ d.cnt = d.last := by
    rw [h.cnt, h.last]
    intro heq
    have hnat := congrArg BitVec.toNat heq
    simp only [BitVec.toNat_ofNat] at hnat
    omega
  have hnext : d.next used =
      { d with
        q := (d.q.setWidth 63).concat d.bit
        cnt := d.cnt + 1
        src := (d.src.setWidth 63).concat false
        rem := (d.sel.setWidth 65).concat d.src.msb } := by
    simp only [next, h.state, if_neg hcnt]
  rw [hnext]
  refine ⟨h.state, hk, h.opb, taking_q h, ?_, ?_, ?_, h.last⟩
  · have hle : prefixOf A.toNat 64 (k + 1) ≤ A.toNat := Nat.div_le_self _ _
    have hA := A.isLt
    show ((d.sel.setWidth 65).concat d.src.msb).toNat = _
    rw [BitVec.toNat_concat, BitVec.toNat_setWidth, hbit.2, h.rem, Nat.mod_eq_of_lt (by omega),
      h.src, shiftLeft_msb A (by omega), prefixOf_succ A.toNat 64 (k + 1) hk]
    have hidx : 64 - (k + 1 + 1) = 63 - (k + 1) := by omega
    rw [hidx]
    omega
  · show (d.src.setWidth 63).concat false = _
    rw [h.src]
    exact concat_shiftLeft A _
  · show d.cnt + 1 = _
    rw [h.cnt]
    exact (BitVec.ofNat_add k 1).symm

/-- The last step leaves ones for a quotient, and the dividend. -/
theorem taken_next (h : Taking A k d) (hk : k + 1 = 64) (used : Bool) :
    (d.next used).state = .intPack ∧ (d.next used).q = BitVec.allOnes 64 ∧
      (d.next used).rem.setWidth 64 = A := by
  have hbit := taking_bit h
  have hq := taking_q h
  have hcnt : d.cnt = d.last := by
    rw [h.cnt, h.last]
    have hlast : k = 63 := by omega
    rw [hlast]
  have hnext : d.next used =
      { d with
        q := (d.q.setWidth 63).concat d.bit
        cnt := d.cnt + 1
        src := (d.src.setWidth 63).concat false
        rem := d.sel
        state := .intPack } := by
    simp only [next, h.state, if_pos hcnt]
  rw [hnext]
  refine ⟨rfl, BitVec.eq_of_toNat_eq ?_, BitVec.eq_of_toNat_eq ?_⟩
  · rw [hk] at hq
    rw [BitVec.toNat_allOnes]
    exact hq
  · have hrem := h.rem
    rw [hk, prefixOf_all] at hrem
    show (d.sel.setWidth 64).toNat = _
    rw [BitVec.toNat_setWidth, hbit.2, hrem, Nat.mod_eq_of_lt A.isLt]

variable {a b : BitVec 64} {is32b isSignedDiv : Bool}

/-- The quotient of a divide by zero. -/
def quotientByZero (a : BitVec 64) (is32b isSignedDiv : Bool) : BitVec 64 :=
  if isSignedDiv && (extend is32b isSignedDiv a).msb then 1 else BitVec.allOnes 64

/-- What a divide comes to, whatever the divisor: by zero, the remainder is the dividend. -/
def settled (a b : BitVec 64) (is32b isSignedDiv : Bool) : BitVec 128 :=
  word is32b (remainder a b is32b isSignedDiv) ++
    word is32b (if extend is32b isSignedDiv b = 0 then quotientByZero a is32b isSignedDiv
      else quotient a b is32b isSignedDiv)

theorem absB_pos : 0 < (absB b is32b isSignedDiv).toNat ↔ extend is32b isSignedDiv b ≠ 0 := by
  rw [Nat.pos_iff_ne_zero, ne_eq, ne_eq, ← magnitude_eq_zero isSignedDiv]
  refine not_congr ⟨fun hzero => BitVec.eq_of_toNat_eq hzero, fun hzero => ?_⟩
  exact congrArg BitVec.toNat hzero

/-- The signs put back on what the recurrence has for a quotient. -/
theorem signed_quotOf (q : BitVec 64)
    (hq : q.toNat = quotOf (absB b is32b isSignedDiv).toNat 64
      (absA a is32b isSignedDiv).toNat) :
    (if isSignedDiv && ((extend is32b isSignedDiv a).msb ^^ (extend is32b isSignedDiv b).msb)
      then ~~~q + 1 else q) =
      if extend is32b isSignedDiv b = 0 then quotientByZero a is32b isSignedDiv
      else quotient a b is32b isSignedDiv := by
  have hpos := @absB_pos b is32b isSignedDiv
  by_cases hzero : extend is32b isSignedDiv b = 0
  · rw [if_pos hzero]
    have hnone : (absB b is32b isSignedDiv).toNat = 0 :=
      Nat.eq_zero_of_not_pos fun h => hpos.mp h hzero
    have hones : q = BitVec.allOnes 64 := by
      apply BitVec.eq_of_toNat_eq
      rw [hq, quotOf, if_pos hnone, BitVec.toNat_allOnes]
    have hmsb : (extend is32b isSignedDiv b).msb = false := by rw [hzero]; rfl
    rw [quotientByZero, hmsb, Bool.xor_false, hones]
    rfl
  · rw [if_neg hzero]
    have hB := Nat.pos_iff_ne_zero.mp (hpos.mpr hzero)
    refine signed_quotient q (BitVec.eq_of_toNat_eq ?_)
    rw [hq, quotOf, if_neg hB, BitVec.toNat_udiv]

theorem taking_start (hb : extend is32b isSignedDiv b = 0) :
    Taking (absA a is32b isSignedDiv) 0 (start a b is32b isSignedDiv) := by
  have hB : absB b is32b isSignedDiv = 0 := (magnitude_eq_zero isSignedDiv _).mpr hb
  generalize hA : absA a is32b isSignedDiv = A
  have hskip (n : Nat) : skips A 0 n = false := Bool.and_false _
  have hsrc : intSrc A 0 = A := by simp only [intSrc, hskip, Bool.false_eq_true, if_false]
  have hsteps : steps A 0 = 64 := by simp only [steps, hskip, Bool.false_eq_true, if_false]
  refine ⟨rfl, by decide, hB, rfl, ?_, ?_, rfl, ?_⟩
  · show ((0 : BitVec 65).concat
      ((intSrc (absA a is32b isSignedDiv) (absB b is32b isSignedDiv)).getLsbD 63)).toNat = _
    rw [hA, hB, hsrc, BitVec.toNat_concat, ← BitVec.msb_eq_getLsbD_last,
      ← BitVec.shiftLeft_zero A, shiftLeft_msb A (by decide), prefixOf_succ _ _ _ (by decide)]
    have hnone : prefixOf A.toNat 64 0 = 0 := Nat.div_eq_of_lt A.isLt
    simp [hnone]
  · show ((intSrc (absA a is32b isSignedDiv) (absB b is32b isSignedDiv)).setWidth 63).concat
      false = _
    rw [hA, hB, hsrc, ← concat_shiftLeft A 0, BitVec.shiftLeft_zero]
  · show BitVec.ofNat 6 (steps (absA a is32b isSignedDiv) (absB b is32b isSignedDiv) - 1) = _
    rw [hA, hB, hsteps]

theorem nSteps_byZero (hb : extend is32b isSignedDiv b = 0) :
    nSteps a b is32b isSignedDiv = 64 := by
  have hB : absB b is32b isSignedDiv = 0 := (magnitude_eq_zero isSignedDiv _).mpr hb
  have hskip (n : Nat) : skips (absA a is32b isSignedDiv) 0 n = false := Bool.and_false _
  simp only [nSteps, hB, steps, hskip, Bool.false_eq_true, if_false]

theorem taking_run (hb : extend is32b isSignedDiv b = 0) (used : Nat → Bool) (k : Nat)
    (hk : k < 64) :
    Taking (absA a is32b isSignedDiv) k ((start a b is32b isSignedDiv).run used k) := by
  induction k with
  | zero => exact taking_start hb
  | succ k ih => exact taking_next (ih (by omega)) hk (used k)

/-- What a unit has that is about to put the signs back. -/
theorem packing_y (h : Keeps a b is32b isSignedDiv d)
    (hq : d.q.toNat = quotOf (absB b is32b isSignedDiv).toNat 64
      (absA a is32b isSignedDiv).toNat)
    (hrem : d.rem.setWidth 64 = absA a is32b isSignedDiv % absB b is32b isSignedDiv) :
    d.hi ++ d.lo = settled a b is32b isSignedDiv := by
  unfold lo pack
  rw [h.is32b, h.isSigned, h.sign, signed_quotOf d.q hq, hi_eq h hrem]
  rfl

/-- The steps of a divide, the cycle that puts the signs back, and the result. -/
theorem settling_run (used : Nat → Bool) :
    (∀ j < nSteps a b is32b isSignedDiv,
        ((start a b is32b isSignedDiv).run used j).state = .iter) ∧
      ((start a b is32b isSignedDiv).run used (nSteps a b is32b isSignedDiv)).state = .intPack ∧
      Waiting (settled a b is32b isSignedDiv)
        ((start a b is32b isSignedDiv).run used (nSteps a b is32b isSignedDiv + 1)) := by
  have hpos : 0 < nSteps a b is32b isSignedDiv := steps_pos
  obtain ⟨k, hk⟩ : ∃ k, nSteps a b is32b isSignedDiv = k + 1 :=
    ⟨nSteps a b is32b isSignedDiv - 1, by omega⟩
  have hkeep := (@keeps_run a b is32b isSignedDiv used k).next (used k)
  by_cases hb : extend is32b isSignedDiv b = 0
  · have hsteps : nSteps a b is32b isSignedDiv = 64 := nSteps_byZero hb
    have hB : absB b is32b isSignedDiv = 0 := (magnitude_eq_zero isSignedDiv _).mpr hb
    have htaken := taken_next (taking_run (a := a) hb used k (by omega)) (by omega) (used k)
    have hwait := waiting_next htaken.1 (used (k + 1))
    rw [packing_y hkeep (by rw [htaken.2.1, hB]; rfl) (by rw [htaken.2.2, hB]; simp)] at hwait
    rw [hk]
    exact ⟨fun j hj => (taking_run hb used j (by omega)).state, htaken.1, hwait⟩
  · have hB := absB_pos.mpr hb
    have hpack := packing_next (iterating_run hB used k (by omega)) hB hk.symm (used k)
    have hwait := waiting_next hpack.1 (used (k + 1))
    have hquot : (((start a b is32b isSignedDiv).run used k).next (used k)).q.toNat =
        quotOf (absB b is32b isSignedDiv).toNat 64 (absA a is32b isSignedDiv).toNat := by
      rw [hpack.2.1, quotOf, if_neg (Nat.pos_iff_ne_zero.mp hB), BitVec.toNat_udiv]
    rw [packing_y hkeep hquot hpack.2.2] at hwait
    refine ⟨fun j hj => (iterating_run hB used j hj).state, ?_, ?_⟩
    · rw [hk]
      exact hpack.1
    · rw [hk]
      exact hwait

/-- The result is held for as long as there is no slot. -/
theorem waiting_while {v : BitVec 128} {n : Nat} {used : Nat → Bool}
    (h : Waiting v (d.run used (n + 1))) (m : Nat) (hm : n < m)
    (hfull : ∀ j, n < j → j < m → used j = true) : Waiting v (d.run used m) := by
  induction m with
  | zero => omega
  | succ m ih =>
    by_cases hlast : m = n
    · rw [hlast]
      exact h
    · have hwait := ih (by omega) fun j hj hjm => hfull j hj (by omega)
      have hused := hfull m (by omega) (by omega)
      show Waiting v ((d.run used m).next (used m))
      rw [hused]
      exact waiting_hold hwait

/-- The unit raises `complete` in this cycle, for the first time. -/
def CompletesAt (d : Divider) (used : Nat → Bool) (m : Nat) : Prop :=
  (d.run used m).complete (used m) = true ∧ ∀ j < m, (d.run used j).complete (used j) = false

instance (used : Nat → Bool) (m : Nat) : Decidable (CompletesAt d used m) :=
  inferInstanceAs (Decidable (_ ∧ _))

/-- The unit completes in the first cycle after its steps with a slot, in none before, and
has the same whichever cycle that is. -/
theorem completes (used : Nat → Bool) (m : Nat) (hm : nSteps a b is32b isSignedDiv < m)
    (hfree : used m = false)
    (hfull : ∀ j, nSteps a b is32b isSignedDiv < j → j < m → used j = true) :
    (start a b is32b isSignedDiv).CompletesAt used m ∧
      ((start a b is32b isSignedDiv).run used m).y = settled a b is32b isSignedDiv := by
  obtain ⟨hiter, hpack, hwait⟩ := @settling_run a b is32b isSignedDiv used
  have hlast := waiting_while hwait m hm hfull
  refine ⟨⟨?_, ?_⟩, hlast.y⟩
  · simp [complete, hlast.state, hfree]
  · intro j hj
    rcases Nat.lt_trichotomy j (nSteps a b is32b isSignedDiv) with hlt | heq | hgt
    · simp [complete, hiter j hlt]
    · simp [complete, heq, hpack]
    · simp [complete, hfull j hgt hj]

/-- A slot comes by, and the unit completes. -/
theorem completes_by (used : Nat → Bool) {m : Nat} (hm : nSteps a b is32b isSignedDiv < m)
    (hfree : used m = false) :
    ∃ l ≤ m, (start a b is32b isSignedDiv).CompletesAt used l ∧
      ((start a b is32b isSignedDiv).run used l).y = settled a b is32b isSignedDiv := by
  have hex : ∃ l, nSteps a b is32b isSignedDiv < l ∧ used l = false := ⟨m, hm, hfree⟩
  refine ⟨Nat.find hex, Nat.find_min' hex ⟨hm, hfree⟩, ?_⟩
  refine completes used _ (Nat.find_spec hex).1 (Nat.find_spec hex).2 fun j hj hjl => ?_
  have hnot := Nat.find_min hex hjl
  simpa [hj] using hnot

/-- Where the unit completes, it has the result. -/
theorem y_of_completes {used : Nat → Bool} {m : Nat}
    (h : (start a b is32b isSignedDiv).CompletesAt used m) :
    ((start a b is32b isSignedDiv).run used m).y = settled a b is32b isSignedDiv := by
  obtain ⟨hiter, hpack, -⟩ := @settling_run a b is32b isSignedDiv used
  obtain ⟨hdone, hbefore⟩ := h
  obtain ⟨hstate, hfree⟩ : ((start a b is32b isSignedDiv).run used m).state = .intWaitwb ∧
      used m = false := by
    simpa [complete] using hdone
  have hm : nSteps a b is32b isSignedDiv < m := by
    rcases Nat.lt_trichotomy m (nSteps a b is32b isSignedDiv) with hlt | heq | hgt
    · rw [hiter m hlt] at hstate
      cases hstate
    · rw [heq, hpack] at hstate
      cases hstate
    · exact hgt
  obtain ⟨l, hl, hat, hy⟩ := completes_by used hm hfree
  -- an earlier slot would have been taken
  have heq : l = m := by
    refine Nat.le_antisymm hl (Nat.le_of_not_lt fun hlt => ?_)
    have hnot := hbefore l hlt
    rw [hat.1] at hnot
    cases hnot
  rw [← heq]
  exact hy

end ByZero

end Divider

end Exec

end R9999
