import Mathlib.Data.Nat.ModEq
import Mathlib.Data.BitVec
import Mathlib.Logic.Function.Basic
import R9999.Hw.Sizes

/-!
# Ring pointers

A ring of `cap` slots is addressed by pointers of an index and a bit that turns with every
time around.  Positions count on without end; `ringPtr` is the pointer of a position.  Two
positions that are less than two rounds apart are told apart by their pointers
(`ringPtr_inj`), and a round apart exactly when the indices agree and the pointers do not
(`ring_full_iff`).
-/

namespace Hw

/-- The pointer of a position. -/
def ringPtr (lg cap pos : ℕ) : BitVec (lg + 1) :=
  BitVec.ofNat (lg + 1) (pos / cap % 2 * 2 ^ lg + pos % cap)

/-- The index of a pointer. -/
def ringIdx {lg : ℕ} (p : BitVec (lg + 1)) : ℕ := p.toNat % 2 ^ lg

section Ring

variable {lg cap : ℕ} (hpos : 0 < cap) (hcap : cap ≤ 2 ^ lg)

/-- Positions of one index are whole rounds apart. -/
theorem eq_or_round {a b : ℕ} (h : a ≤ b) (hb : b < a + 2 * cap) (he : a % cap = b % cap) :
    b = a ∨ b = a + cap := by
  obtain ⟨k, hk⟩ : cap ∣ b - a := (Nat.modEq_iff_dvd' h).1 he
  have hk2 : k < 2 := by
    by_contra hge
    have : cap * 2 ≤ cap * k := Nat.mul_le_mul_left cap (not_lt.1 hge)
    omega
  rcases Nat.lt_succ_iff_lt_or_eq.1 hk2 with h0 | rfl
  · obtain rfl : k = 0 := by omega
    exact .inl (by omega)
  · exact .inr (by omega)

include hpos hcap

theorem ringPtr_toNat (pos : ℕ) :
    (ringPtr lg cap pos).toNat = pos / cap % 2 * 2 ^ lg + pos % cap := by
  have hlt : pos % cap < cap := Nat.mod_lt pos hpos
  have hbit : pos / cap % 2 < 2 := Nat.mod_lt _ (by decide)
  rw [ringPtr, BitVec.toNat_ofNat, Nat.mod_eq_of_lt]
  calc pos / cap % 2 * 2 ^ lg + pos % cap < pos / cap % 2 * 2 ^ lg + 2 ^ lg := by omega
    _ = (pos / cap % 2 + 1) * 2 ^ lg := (Nat.succ_mul _ _).symm
    _ ≤ 2 * 2 ^ lg := Nat.mul_le_mul_right _ hbit
    _ = 2 ^ (lg + 1) := (Nat.pow_succ' ..).symm

/-- The index of a position's pointer. -/
theorem ringIdx_ringPtr (pos : ℕ) : ringIdx (ringPtr lg cap pos) = pos % cap := by
  rw [ringIdx, ringPtr_toNat hpos hcap, Nat.mul_comm, Nat.mul_add_mod,
    Nat.mod_eq_of_lt ((Nat.mod_lt pos hpos).trans_le hcap)]

/-- A pointer tells a position from those a round away. -/
theorem ringPtr_round (pos : ℕ) : ringPtr lg cap pos ≠ ringPtr lg cap (pos + cap) := by
  intro h
  have he := congrArg BitVec.toNat h
  rw [ringPtr_toNat hpos hcap, ringPtr_toNat hpos hcap, Nat.add_mod_right, Nat.add_div_right pos hpos,
    Nat.add_right_cancel_iff] at he
  have hm := Nat.eq_of_mul_eq_mul_right (Nat.two_pow_pos lg) he
  omega

/-- **Pointers tell positions apart** that are less than two rounds apart. -/
theorem ringPtr_inj {a b : ℕ} (h : a ≤ b) (hb : b < a + 2 * cap)
    (he : ringPtr lg cap a = ringPtr lg cap b) : a = b := by
  have hidx : a % cap = b % cap := by
    rw [← ringIdx_ringPtr hpos hcap, he, ringIdx_ringPtr hpos hcap]
  rcases eq_or_round h hb hidx with rfl | rfl
  · rfl
  · exact absurd he (ringPtr_round hpos hcap a)

theorem ring_empty_iff {a b : ℕ} (h : a ≤ b) (hb : b < a + 2 * cap) :
    ringPtr lg cap a = ringPtr lg cap b ↔ b = a :=
  ⟨fun he => (ringPtr_inj hpos hcap h hb he).symm, fun he => by rw [he]⟩

/-- **A full ring**: one index, two pointers. -/
theorem ring_full_iff {a b : ℕ} (h : a ≤ b) (hb : b < a + 2 * cap) :
    ringIdx (ringPtr lg cap a) = ringIdx (ringPtr lg cap b) ∧
        ringPtr lg cap a ≠ ringPtr lg cap b ↔ b = a + cap := by
  rw [ringIdx_ringPtr hpos hcap, ringIdx_ringPtr hpos hcap]
  constructor
  · rintro ⟨hidx, hne⟩
    rcases eq_or_round h hb hidx with rfl | rfl
    · exact absurd rfl hne
    · rfl
  · rintro rfl
    exact ⟨(Nat.add_mod_right a cap).symm, ringPtr_round hpos hcap a⟩

end Ring

/-- The slots hold the elements of a list from a position on. -/
def RingHolds {α : Type*} (cap : ℕ) (slot : ℕ → α) (l : List α) (first : ℕ) : Prop :=
  ∀ p, first ≤ p → p < l.length → l[p]? = some (slot (p % cap))

namespace RingHolds

variable {α : Type*} {cap : ℕ} {slot : ℕ → α} {l : List α} {first : ℕ}

/-- Elements leave at the front. -/
theorem drop (h : RingHolds cap slot l first) {first' : ℕ} (hle : first ≤ first') :
    RingHolds cap slot l first' := fun p hp => h p (hle.trans hp)

/-- An element comes at the end, and none that is there is written over. -/
theorem push (h : RingHolds cap slot l first) (hroom : l.length < first + cap) (a : α) :
    RingHolds cap (Function.update slot (l.length % cap) a) (l ++ [a]) first := by
  intro p hp hlt
  rw [List.length_append, List.length_singleton] at hlt
  rcases Nat.lt_succ_iff_lt_or_eq.1 hlt with hold | rfl
  · have hne : p % cap ≠ l.length % cap := by
      intro he
      rcases eq_or_round hold.le (by omega) he with heq | heq <;> omega
    rw [Function.update_of_ne hne, List.getElem?_append_left hold]
    exact h p hp hold
  · rw [Function.update_self, List.getElem?_append_right le_rfl, Nat.sub_self]
    rfl

end RingHolds

/-- In a ring of a power of two the pointers are the positions themselves. -/
theorem ringPtr_pow2 (lg pos : ℕ) : ringPtr lg (2 ^ lg) pos = BitVec.ofNat (lg + 1) pos := by
  have h : pos / 2 ^ lg % 2 * 2 ^ lg + pos % 2 ^ lg = pos % 2 ^ (lg + 1) := by
    rw [Nat.mod_pow_succ, Nat.add_comm, Nat.mul_comm]
  rw [ringPtr, h]
  exact BitVec.eq_of_toNat_eq (by rw [BitVec.toNat_ofNat, BitVec.toNat_ofNat, Nat.mod_mod])

theorem ringPtr_pow2_add (lg pos k : ℕ) :
    ringPtr lg (2 ^ lg) pos + BitVec.ofNat (lg + 1) k = ringPtr lg (2 ^ lg) (pos + k) := by
  rw [ringPtr_pow2, ringPtr_pow2, BitVec.ofNat_add]

end Hw
