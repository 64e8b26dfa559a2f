import Mathlib.Tactic.SplitIfs
import R9999.Mmu.Match

/-!
# The unmapped segments

The RTL decodes the segment of an address by the mode and the form of the address, the
interpreter by the upper word of the address alone.  The two agree but for two kinds of
address: the user segment with Status.ERL set, which only the RTL takes out of the TLB, and
the 64-bit user addresses from 2^31 to 3 * 2^29, which the interpreter takes for kseg0 and
kseg1.
-/

namespace R9999

namespace Mmu

open Iss (unmapped sext32)

/-- Both decide by the same bits of Status whether addresses have 64 bits. -/
theorem is64bAddrMode_eq (s : Iss.State) :
    Iss.is64bAddrMode s = in64bMode (s.cpr0 Iss.Cpr0.sr) := rfl

theorem hi32_eq (va : BitVec 64) : (va >>> 32).setWidth 32 = va.extractLsb' 32 32 := rfl

theorem kseg_eq_iff (va : BitVec 64) (k : BitVec 3) :
    (va.setWidth 32 >>> 29 : BitVec 32) = k.setWidth 32 ↔ va.extractLsb' 29 3 = k := by
  constructor
  · intro h
    apply BitVec.eq_of_getLsbD_eq
    intro i hi
    have hbit := congrArg (BitVec.getLsbD · i) h
    have h32 : 29 + i < 32 := by omega
    have hi32 : i < 32 := by omega
    simpa [h32, hi, hi32] using hbit
  · rintro rfl
    apply BitVec.eq_of_getLsbD_eq
    intro i hi
    by_cases h3 : i < 3
    · have h32 : 29 + i < 32 := by omega
      simp [h3, h32, hi]
    · have h32 : ¬ 29 + i < 32 := by omega
      simp [h3, h32]

/-- The interpreter's decoding, by the fields of the address. -/
theorem unmapped_eq (va : BitVec 64) :
    unmapped va =
      if va.extractLsb' 32 32 = 0 ∨ va.extractLsb' 32 32 = 0xffffffff then
        if va.extractLsb' 29 3 = 4 ∨ va.extractLsb' 29 3 = 5 then
          some (va.setWidth 32 &&& 0x1fffffff)
        else none
      else if va.extractLsb' 62 2 = 2 then some ((va &&& 0xffffffffff).setWidth 32)
      else none := by
  have hr : (va >>> 62) &&& (0x3 : BitVec 64) = 2 ↔ va.extractLsb' 62 2 = 2 :=
    region_eq_iff va (2 <<< 62)
  unfold unmapped
  dsimp only
  rw [hi32_eq]
  refine if_congr (by simp) (if_congr ?_ rfl rfl) (if_congr ?_ rfl rfl)
  · rw [Bool.or_eq_true, beq_iff_eq, beq_iff_eq]
    exact or_congr (kseg_eq_iff va 4) (kseg_eq_iff va 5)
  · rw [beq_iff_eq]
    exact hr

/-- Status.ERL takes the address out of the TLB in the RTL. -/
def ErlUnmaps (sr : BitVec 32) (erl : Bool) (va : BitVec 64) : Prop :=
  erl = true ∧ (in64bMode sr = false ∨ va.extractLsb' 32 32 = 0xffffffff) ∧
    va.getLsbD 31 = false

instance (sr : BitVec 32) (erl : Bool) (va : BitVec 64) : Decidable (ErlUnmaps sr erl va) :=
  inferInstanceAs (Decidable (_ ∧ _))

/-- A 64-bit user address whose lower word is one of kseg0 or kseg1. -/
def LowKseg (sr : BitVec 32) (va : BitVec 64) : Prop :=
  in64bMode sr = true ∧ va.extractLsb' 32 32 = 0 ∧
    (va.extractLsb' 29 3 = 4 ∨ va.extractLsb' 29 3 = 5)

instance (sr : BitVec 32) (va : BitVec 64) : Decidable (LowKseg sr va) :=
  inferInstanceAs (Decidable (_ ∧ _))

/-- The upper word of an address in a 32-bit mode repeats bit 31. -/
theorem extractLsb'_sext32 (w : BitVec 32) :
    (sext32 w).extractLsb' 32 32 = if w.getLsbD 31 then 0xffffffff else 0 := by
  have hones : (0xffffffff : BitVec 32) = BitVec.allOnes 32 := by decide
  apply BitVec.eq_of_getLsbD_eq
  intro i hi
  have h32 : ¬ 32 + i < 32 := by omega
  have h64 : 32 + i < 64 := by omega
  rw [BitVec.getLsbD_extractLsb', sext32, BitVec.getLsbD_signExtend, if_neg h32, hones,
    BitVec.msb_eq_getLsbD_last]
  cases hsign : w.getLsbD 31 with
  | false => simp
  | true =>
    rw [if_pos rfl, BitVec.getLsbD_allOnes]
    simp [hi, h64]

/-- The address that both decode has the form of its mode. -/
theorem effective_form (sr : BitVec 32) (vAddr : BitVec 64) (h : in64bMode sr = false) :
    (effective sr vAddr).extractLsb' 32 32 =
      if (effective sr vAddr).getLsbD 31 then 0xffffffff else 0 := by
  have hva : effective sr vAddr = sext32 (vAddr.setWidth 32) := by
    rw [effective, h]
    rfl
  rw [hva, extractLsb'_sext32, sext32, BitVec.getLsbD_signExtend]
  rfl

/-- The upper word of an address decides its region where the region is all zeros or all
ones. -/
theorem region_of_hi32 (va : BitVec 64) :
    va.extractLsb' 62 2 = (va.extractLsb' 32 32).extractLsb' 30 2 := by
  apply BitVec.eq_of_getLsbD_eq
  intro i hi
  have h32 : 30 + i < 32 := by omega
  have hadd : 32 + (30 + i) = 62 + i := by omega
  simp [hi, h32, hadd]

/-- Bit 31 is the upper bit of the segment. -/
theorem sign_of_kseg (va : BitVec 64) :
    va.getLsbD 31 = (va.extractLsb' 29 3).getLsbD 2 := by
  simp

/-- What the two decoders agree on: the address is unmapped in both, with one physical
address, or both look it up in the TLB as it is. -/
def Decoded (unmappedPa : Option (BitVec 32)) (out : Seg) (va : BitVec 64) : Prop :=
  match unmappedPa with
  | some pa => out.mapped = false ∧ pa.setWidth 30 = out.lAddr.setWidth 30
  | none => out.mapped = true ∧ out.lAddr = va

theorem decoded_kseg (va : BitVec 64) (cache : Bool) (seg : BitVec 2) :
    Decoded (some (va.setWidth 32 &&& 0x1fffffff))
      { lAddr := (va.setWidth 29).setWidth 64, cache, mapped := false, seg, badPerms := false }
      va := by
  have hmask : (0x1fffffff : BitVec 32) = BitVec.ofNat 32 (2 ^ 29 - 1) := by decide
  refine ⟨rfl, ?_⟩
  apply BitVec.eq_of_getLsbD_eq
  intro i hi
  have h32 : i < 32 := by omega
  have h64 : i < 64 := by omega
  rw [BitVec.getLsbD_setWidth, BitVec.getLsbD_and, hmask, BitVec.getLsbD_ofNat,
    Nat.testBit_two_pow_sub_one]
  by_cases h29 : i < 29 <;> simp [hi, h32, h64, h29]

theorem decoded_xkphys (va : BitVec 64) (cache : Bool) :
    Decoded (some ((va &&& 0xffffffffff).setWidth 32))
      { lAddr := (va.setWidth 59).setWidth 64, cache, mapped := false, seg := 0,
        badPerms := false } va := by
  have hmask : (0xffffffffff : BitVec 64) = BitVec.ofNat 64 (2 ^ 40 - 1) := by decide
  refine ⟨rfl, ?_⟩
  apply BitVec.eq_of_getLsbD_eq
  intro i hi
  have h32 : i < 32 := by omega
  have h40 : i < 40 := by omega
  have h64 : i < 64 := by omega
  rw [BitVec.getLsbD_setWidth, BitVec.getLsbD_setWidth, BitVec.getLsbD_and, hmask,
    Iss.getLsbD_lowMask 40 i (by decide)]
  simp [hi, h32, h40, h64]

/-- The two decoders agree on the segments of the 32-bit form. -/
theorem decoded_compat {sr : BitVec 32} {erl : Bool} {va : BitVec 64}
    (hhi : va.extractLsb' 32 32 = 0 ∨ va.extractLsb' 32 32 = 0xffffffff)
    (hcompat : in64bMode sr = false ∨ va.extractLsb' 32 32 = 0xffffffff)
    (hkphys : ¬ (in64bMode sr = true ∧ va.extractLsb' 62 2 = 2))
    (herl : ¬ ErlUnmaps sr erl va) : Decoded (unmapped va) (segment sr erl va) va := by
  rw [unmapped_eq, segment, if_pos hhi, if_neg hkphys, if_pos hcompat]
  have hsign := sign_of_kseg va
  by_cases h31 : va.getLsbD 31 = false
  · have h4 : va.extractLsb' 29 3 ≠ 4 := by
      intro h
      rw [h, h31] at hsign
      cases hsign
    have h5 : va.extractLsb' 29 3 ≠ 5 := by
      intro h
      rw [h, h31] at hsign
      cases hsign
    have hmapped : erl = false := by
      by_contra h
      exact herl ⟨by simpa using h, hcompat, h31⟩
    rw [if_neg (not_or.mpr ⟨h4, h5⟩), if_pos h31, hmapped]
    exact ⟨rfl, rfl⟩
  rw [if_neg h31]
  by_cases h4 : va.extractLsb' 29 3 = 4
  · rw [if_pos (Or.inl h4), if_pos h4]
    exact decoded_kseg va true 0
  rw [if_neg h4]
  by_cases h5 : va.extractLsb' 29 3 = 5
  · rw [if_pos (Or.inr h5), if_pos h5]
    exact decoded_kseg va false 1
  · rw [if_neg (not_or.mpr ⟨h4, h5⟩), if_neg h5]
    exact ⟨rfl, rfl⟩

/-- The two decoders agree on every address that has the form of its mode, but for the two
kinds. -/
theorem decoded_segment {sr : BitVec 32} {erl : Bool} {va : BitVec 64}
    (hform : in64bMode sr = false →
      va.extractLsb' 32 32 = if va.getLsbD 31 then 0xffffffff else 0)
    (herl : ¬ ErlUnmaps sr erl va) (hlow : ¬ LowKseg sr va) :
    Decoded (unmapped va) (segment sr erl va) va := by
  have hregion := region_of_hi32 va
  by_cases hones : va.extractLsb' 32 32 = 0xffffffff
  · have hkphys : va.extractLsb' 62 2 ≠ 2 := by
      rw [hregion, hones]
      decide
    exact decoded_compat (.inr hones) (.inr hones) (fun h => hkphys h.2) herl
  by_cases hmode : in64bMode sr = false
  · have hzero : va.extractLsb' 32 32 = 0 := by
      have h := hform hmode
      split_ifs at h
      · exact absurd h hones
      · exact h
    exact decoded_compat (.inl hzero) (.inl hmode) (by simp [hmode]) herl
  have hwide : in64bMode sr = true := by simpa using hmode
  have hcompat : ¬ (true = false ∨ va.extractLsb' 32 32 = 0xffffffff) :=
    not_or.mpr ⟨by decide, hones⟩
  rw [unmapped_eq, segment, hwide]
  by_cases hzero : va.extractLsb' 32 32 = 0
  · have huser : va.extractLsb' 62 2 = 0 := by
      rw [hregion, hzero]
      decide
    have hkseg : ¬ (va.extractLsb' 29 3 = 4 ∨ va.extractLsb' 29 3 = 5) :=
      fun h => hlow ⟨hwide, hzero, h⟩
    rw [if_pos (Or.inl hzero), if_neg hkseg, if_neg (by simp [huser]), if_neg hcompat,
      if_pos huser]
    exact ⟨rfl, rfl⟩
  rw [if_neg (not_or.mpr ⟨hzero, hones⟩)]
  by_cases hkphys : va.extractLsb' 62 2 = 2
  · rw [if_pos hkphys, if_pos ⟨rfl, hkphys⟩]
    exact decoded_xkphys va _
  · rw [if_neg hkphys, if_neg (fun h => hkphys h.2), if_neg hcompat]
    split_ifs <;> exact ⟨rfl, rfl⟩

end Mmu

end R9999
