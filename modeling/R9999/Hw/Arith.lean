import R9999.Hw.Sizes

/-!
# Arithmetic units

The mathematics of three units of an integer datapath.  A carry-save adder turns three
addends into two with the same sum (`carry_add_save`).  A funnel shifter shifts a double
word right and keeps its lower half, which shifts left as well as right (`funnel_left`,
`funnel_right`, `funnel_signed`).  A restoring divider takes the bits of the dividend from
the top, and has after each of them the quotient and the remainder of the prefix it has
taken (`prefix_step`).
-/

namespace Hw

section CarrySave

/-- A half adder: the sum without the carries, and the carries. -/
theorem xor_add_and (x y : Nat) : (x ^^^ y) + 2 * (x &&& y) = x + y := by
  induction x using Nat.strongRecOn generalizing y with
  | ind x ih =>
    by_cases hx : x = 0
    · simp [hx]
    have hhalf := ih (x / 2) (by omega) (y / 2)
    rw [← Nat.xor_div_two, ← Nat.and_div_two] at hhalf
    have hxor := @Nat.xor_mod_two_eq_one x y
    have hand := @Nat.and_mod_two_eq_one x y
    omega

variable {w : Nat} (a b c : BitVec w)

theorem shiftLeft_one_toNat : (a <<< 1).toNat = 2 * a.toNat % 2 ^ w := by
  rw [BitVec.toNat_shiftLeft, Nat.shiftLeft_eq, Nat.pow_one, Nat.mul_comm]

theorem xor_add_and_shift : (a ^^^ b) + ((a &&& b) <<< 1) = a + b := by
  apply BitVec.eq_of_toNat_eq
  rw [BitVec.toNat_add, shiftLeft_one_toNat, BitVec.toNat_xor, BitVec.toNat_and, Nat.add_mod_mod,
    xor_add_and, BitVec.toNat_add]

/-- The carries of a full adder are those of its two half adders. -/
theorem carries_eq_add : (a &&& b) ||| (c &&& (a ^^^ b)) = (a &&& b) + (c &&& (a ^^^ b)) := by
  refine (BitVec.add_eq_or_of_and_eq_zero _ _ ?_).symm
  apply BitVec.eq_of_getLsbD_eq
  intro i _
  simp only [BitVec.getLsbD_and, BitVec.getLsbD_xor, BitVec.getLsbD_zero]
  cases a.getLsbD i <;> cases b.getLsbD i <;> simp

/-- The carries, shifted, and the bitwise sum of three addends add up to their sum. -/
theorem carry_add_save :
    (((a &&& b) ||| (c &&& (a ^^^ b))) <<< 1) + (a ^^^ b ^^^ c) = a + b + c := by
  have hshift (x y : BitVec w) : (x + y) <<< 1 = (x <<< 1) + (y <<< 1) := by
    apply BitVec.eq_of_toNat_eq
    simp only [shiftLeft_one_toNat, BitVec.toNat_add, Nat.mul_mod_mod, Nat.add_mod_mod,
      Nat.mod_add_mod, Nat.mul_add]
  calc (((a &&& b) ||| (c &&& (a ^^^ b))) <<< 1) + (a ^^^ b ^^^ c)
      = ((a &&& b) <<< 1) + ((c &&& (a ^^^ b)) <<< 1) + (a ^^^ b ^^^ c) := by
        rw [carries_eq_add, hshift]
    _ = ((a ^^^ b ^^^ c) + (((a ^^^ b) &&& c) <<< 1)) + ((a &&& b) <<< 1) := by
        rw [BitVec.and_comm c, BitVec.add_assoc, BitVec.add_comm]
        rw [BitVec.add_comm (((a ^^^ b) &&& c) <<< 1)]
    _ = a + b + c := by
        rw [xor_add_and_shift, BitVec.add_assoc, BitVec.add_comm c, ← BitVec.add_assoc,
          xor_add_and_shift]

end CarrySave

section Funnel

variable {w : Nat} (a : BitVec w) (n : Nat)

/-- A double word shifted right by what is missing to a word is the upper word shifted
left. -/
theorem funnel_left (hn : n ≤ w) :
    ((a ++ (0 : BitVec w)) >>> (w - n)).setWidth w = a <<< n := by
  apply BitVec.eq_of_getLsbD_eq
  intro i hi
  simp only [BitVec.getLsbD_setWidth, BitVec.getLsbD_ushiftRight, BitVec.getLsbD_append,
    BitVec.getLsbD_shiftLeft]
  by_cases hlt : i < n
  · have h : w - n + i < w := by omega
    simp [hi, hlt, h]
  · have h : ¬ w - n + i < w := by omega
    have hsub : w - n + i - w = i - n := by omega
    simp [hi, hlt, h, hsub]

/-- With a word above it that extends its sign. -/
theorem funnel_signed (hn : n ≤ w) :
    ((BitVec.signExtend w (BitVec.ofBool a.msb) ++ a) >>> n).setWidth w = a.sshiftRight n := by
  apply BitVec.eq_of_getLsbD_eq
  intro i hi
  have hsign (k : Nat) (hk : k < w) :
      (BitVec.signExtend w (BitVec.ofBool a.msb)).getLsbD k = a.msb := by
    rw [BitVec.getLsbD_signExtend]
    rcases k with _ | k
    · simp [hk]
    · simp [hk, BitVec.msb_eq_getLsbD_last]
  simp only [BitVec.getLsbD_setWidth, BitVec.getLsbD_ushiftRight, BitVec.getLsbD_append,
    BitVec.getLsbD_sshiftRight]
  by_cases hlt : n + i < w
  · have hle : ¬ w ≤ i := by omega
    simp [hi, hlt, hle]
  · have hin : n + i - w < w := by omega
    simp [hi, hlt, hsign _ hin]

theorem funnel_right :
    (((0 : BitVec w) ++ a) >>> n).setWidth w = a >>> n := by
  apply BitVec.eq_of_getLsbD_eq
  intro i hi
  simp only [BitVec.getLsbD_setWidth, BitVec.getLsbD_ushiftRight, BitVec.getLsbD_append]
  by_cases hlt : n + i < w
  · simp [hi, hlt]
  · have hout : a.getLsbD (n + i) = false := BitVec.getLsbD_of_ge a _ (by omega)
    simp [hi, hlt, hout]

end Funnel

section Restoring

variable (A d n k : Nat)

/-- The `k` top bits of an `n`-bit dividend. -/
def prefixOf : Nat := A / 2 ^ (n - k)

theorem prefixOf_all : prefixOf A n n = A := by simp [prefixOf]

/-- One more bit. -/
theorem prefixOf_succ (hk : k < n) :
    prefixOf A n (k + 1) = 2 * prefixOf A n k + (A / 2 ^ (n - (k + 1))) % 2 := by
  have hexp : n - k = n - (k + 1) + 1 := by omega
  unfold prefixOf
  rw [hexp, Nat.pow_succ, ← Nat.div_div_eq_div_mul]
  omega

/-- A step of the divider, with the partial remainder already shifted and the next bit of
the dividend in it: the comparison gives the bit of the quotient and the new remainder. -/
theorem prefix_step (P b : Nat) (hd : 0 < d) (hb : b < 2) :
    (2 * P + b) / d = 2 * (P / d) + (if d ≤ 2 * (P % d) + b then 1 else 0) ∧
      (2 * P + b) % d =
        (if d ≤ 2 * (P % d) + b then 2 * (P % d) + b - d else 2 * (P % d) + b) := by
  have hmod := Nat.mod_lt P hd
  have hP := Nat.div_add_mod P d
  have hsplit : 2 * P + b = 2 * (P % d) + b + d * (2 * (P / d)) := by
    have : d * (2 * (P / d)) = 2 * (d * (P / d)) := Nat.mul_left_comm d 2 (P / d)
    omega
  rw [hsplit, Nat.add_mul_div_left _ _ hd, Nat.add_mul_mod_self_left]
  split
  case isTrue hle =>
    have hlt : 2 * (P % d) + b - d < d := by omega
    have hsub : 2 * (P % d) + b = (2 * (P % d) + b - d) + d * 1 := by omega
    rw [hsub, Nat.add_mul_div_left _ _ hd, Nat.add_mul_mod_self_left, Nat.div_eq_of_lt hlt,
      Nat.mod_eq_of_lt hlt]
    omega
  case isFalse hgt =>
    have hlt : 2 * (P % d) + b < d := by omega
    rw [Nat.div_eq_of_lt hlt, Nat.mod_eq_of_lt hlt]
    omega

/-- What a restoring divider has for a quotient after `k` bits that make the prefix `P`:
every comparison with a divisor of zero comes out true. -/
def quotOf (P : Nat) : Nat := if d = 0 then 2 ^ k - 1 else P / d

/-- The recurrence, whatever the divisor. -/
theorem quotOf_step (P b : Nat) (hb : b < 2) :
    quotOf d (k + 1) (2 * P + b) =
        2 * quotOf d k P + (if d ≤ 2 * (P % d) + b then 1 else 0) ∧
      (2 * P + b) % d =
        (if d ≤ 2 * (P % d) + b then 2 * (P % d) + b - d else 2 * (P % d) + b) := by
  by_cases hd : d = 0
  · subst hd
    have hpos := Nat.two_pow_pos k
    simp only [quotOf, if_pos, Nat.zero_le, Nat.mod_zero, Nat.sub_zero, Nat.pow_succ, and_true]
    omega
  · have hstep := prefix_step d P b (Nat.pos_of_ne_zero hd) hb
    simp only [quotOf, if_neg hd]
    exact hstep

/-- The bits below the prefix, with one more of them gone. -/
theorem low_step (hk : k < n) :
    2 * (A * 2 ^ k % 2 ^ n) =
      2 ^ n * (A / 2 ^ (n - (k + 1)) % 2) + A * 2 ^ (k + 1) % 2 ^ n := by
  obtain ⟨j, rfl⟩ : ∃ j, n = j + 1 + k := ⟨n - (k + 1), by omega⟩
  have hexp : j + 1 + k - (k + 1) = j := by omega
  have hsucc : j + 1 + k = j + (k + 1) := by omega
  have hlow : A * 2 ^ (k + 1) % 2 ^ (j + 1 + k) = A % 2 ^ j * 2 ^ (k + 1) := by
    rw [hsucc, Nat.pow_add 2 j, Nat.mul_mod_mul_right]
  have hhigh : A * 2 ^ k % 2 ^ (j + 1 + k) = A % 2 ^ (j + 1) * 2 ^ k := by
    rw [Nat.pow_add 2 (j + 1), Nat.mul_mod_mul_right]
  rw [hlow, hhigh, hexp, hsucc, Nat.mod_pow_succ, Nat.pow_add 2 j, Nat.pow_succ 2 k,
    Nat.add_mul, Nat.mul_add]
  ac_rfl

end Restoring

end Hw
