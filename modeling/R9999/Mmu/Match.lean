import Mathlib.Tactic.IntervalCases
import R9999.Iss.MicroTlb
import R9999.Mmu.Rtl

/-!
# The fields of a TLB entry

The interpreter keeps a TLB entry as the four register values that were written, the RTL
keeps the fields of them that it implements.  Seen through the fields the two match an
address alike, and for the seven page sizes, with page frames that are aligned to their
size, they also choose the same page and make the same physical address of it.
-/

namespace R9999

namespace Mmu

open Iss (TlbEntry)

/-- The fields of EntryLo that the TLB stores. -/
def EntryLo.stored (v : BitVec 64) : EntryLo 18 where
  pfn := v.extractLsb' 6 18
  c := v.extractLsb' 3 3
  d := v.getLsbD 2
  v := v.getLsbD 1
  g := v.getLsbD 0

/-- The fields of an entry that the TLB stores. -/
def TlbStored.of (e : TlbEntry) : TlbStored where
  pagemask := e.pageMask.extractLsb' 13 12
  asid := e.entryHi.setWidth 8
  r := e.entryHi.extractLsb' 62 2
  vpn := e.entryHi.extractLsb' 13 27
  page0 := .stored e.entryLo0
  page1 := .stored e.entryLo1

/-- The bits of `2 ^ n - 1`, moved up. -/
theorem getLsbD_fieldMask (n k i : Nat) (hn : n ≤ 64) :
    (BitVec.ofNat 64 (2 ^ n - 1) <<< k).getLsbD i =
      (decide (i < 64) && decide (k ≤ i) && decide (i < k + n)) := by
  rw [BitVec.getLsbD_shiftLeft, Iss.getLsbD_lowMask n (i - k) hn]
  by_cases hk : i < k
  · simp [hk]
  · have hsub : (i - k < n) ↔ i < k + n := by omega
    simp [hk, hsub, Nat.le_of_not_lt hk]

/-- Agreement under a mask is agreement at its bits. -/
theorem and_eq_and_iff {w : Nat} (a b m : BitVec w) :
    a &&& m = b &&& m ↔ ∀ i < w, m.getLsbD i = true → a.getLsbD i = b.getLsbD i := by
  constructor
  · intro h i hi hm
    have hbit := congrArg (BitVec.getLsbD · i) h
    simpa [hm] using hbit
  · intro h
    apply BitVec.eq_of_getLsbD_eq
    intro i hi
    rw [BitVec.getLsbD_and, BitVec.getLsbD_and]
    cases hm : m.getLsbD i with
    | false => rw [Bool.and_false, Bool.and_false]
    | true => rw [h i hi hm]

theorem xor_and_eq_zero_iff {w : Nat} (a b m : BitVec w) :
    (a ^^^ b) &&& m = 0 ↔ ∀ i < w, m.getLsbD i = true → a.getLsbD i = b.getLsbD i := by
  rw [← and_eq_and_iff]
  constructor
  · intro h
    apply BitVec.eq_of_getLsbD_eq
    intro i hi
    have hbit := congrArg (BitVec.getLsbD · i) h
    simp only [BitVec.getLsbD_and, BitVec.getLsbD_xor] at hbit ⊢
    revert hbit
    cases a.getLsbD i <;> cases b.getLsbD i <;> cases m.getLsbD i <;> simp
  · intro h
    apply BitVec.eq_of_getLsbD_eq
    intro i hi
    have hbit := congrArg (BitVec.getLsbD · i) h
    simp only [BitVec.getLsbD_and, BitVec.getLsbD_xor] at hbit ⊢
    revert hbit
    cases a.getLsbD i <;> cases b.getLsbD i <;> cases m.getLsbD i <;> simp

theorem getLsbD_pm (e : TlbEntry) (i : Nat) :
    e.pm.getLsbD i = (decide (13 ≤ i) && decide (i < 25) && e.pageMask.getLsbD i) := by
  have hmask : (0x1ffe000 : BitVec 64) = BitVec.ofNat 64 (2 ^ 12 - 1) <<< 13 := by decide
  rw [TlbEntry.pm, hmask, BitVec.getLsbD_and, getLsbD_fieldMask 12 13 i (by decide),
    BitVec.getLsbD_setWidth]
  by_cases h13 : 13 ≤ i <;> by_cases h25 : i < 25
  · have h64 : i < 64 := by omega
    simp [h13, h25, h64]
  all_goals simp [h13, h25]

theorem getLsbD_vpnMask (e : TlbEntry) (i : Nat) :
    e.vpnMask.getLsbD i =
      (decide (13 ≤ i) && decide (i < 40) && !(decide (i < 25) && e.pageMask.getLsbD i)) := by
  have hmask : Iss.vpn2Mask <<< 13 = BitVec.ofNat 64 (2 ^ 27 - 1) <<< 13 := by decide
  rw [TlbEntry.vpnMask, hmask, BitVec.getLsbD_and, getLsbD_fieldMask 27 13 i (by decide),
    BitVec.getLsbD_not, BitVec.getLsbD_or, getLsbD_pm, Iss.getLsbD_pageBits]
  by_cases h13 : 13 ≤ i <;> by_cases h40 : i < 40
  · have h64 : i < 64 := by omega
    have hlow : ¬ i < 13 := by omega
    simp [h13, h40, h64, hlow]
  all_goals simp [h13, h40]

theorem getLsbD_compare (pagemask : BitVec 12) (j : Nat) (hj : j < 27) :
    (BitVec.allOnes 15 ++ ~~~pagemask : BitVec 27).getLsbD j =
      !(decide (j < 12) && pagemask.getLsbD j) := by
  rw [BitVec.getLsbD_append]
  by_cases h12 : j < 12
  · simp [h12]
  · have h15 : j - 12 < 15 := by omega
    rw [if_neg h12, BitVec.getLsbD_allOnes]
    simp [h12, h15]

/-- The field of an address that the entries compare. -/
theorem vpnMatch_of (e : TlbEntry) (va : BitVec 64) :
    ((TlbStored.of e).vpn ^^^ va.extractLsb' 13 27) &&&
        (BitVec.allOnes 15 ++ ~~~(TlbStored.of e).pagemask) = 0 ↔
      va &&& e.vpnMask = e.entryHi &&& e.vpnMask := by
  rw [xor_and_eq_zero_iff, and_eq_and_iff]
  constructor
  · intro h i _ hmask
    rw [getLsbD_vpnMask] at hmask
    obtain ⟨⟨h13, h40⟩, hcmp⟩ :
        (13 ≤ i ∧ i < 40) ∧ (25 ≤ i ∨ e.pageMask.getLsbD i = false) := by
      simpa using hmask
    have hadd : 13 + (i - 13) = i := by omega
    have hj : i - 13 < 27 := by omega
    have hbit := h (i - 13) hj (by
      rw [getLsbD_compare _ _ hj]
      by_cases h12 : i - 13 < 12
      · simp [TlbStored.of, hadd, hcmp.resolve_left (by omega)]
      · simp [h12])
    simpa [TlbStored.of, hj, hadd] using hbit.symm
  · intro h j hj hmask
    rw [getLsbD_compare _ _ hj] at hmask
    have hbit := h (13 + j) (by omega) (by
      rw [getLsbD_vpnMask]
      by_cases h12 : j < 12
      · have hcmp : e.pageMask.getLsbD (13 + j) = false := by
          simpa [TlbStored.of, h12] using hmask
        simp [hcmp]
        omega
      · have h25 : ¬ 13 + j < 25 := by omega
        simp [h25]
        omega)
    simpa [TlbStored.of, hj] using hbit.symm

/-- A field of a value, shifted down and masked. -/
theorem field_eq (a : BitVec 64) (k n : Nat) (hn : n ≤ 64) :
    (a >>> k) &&& BitVec.ofNat 64 (2 ^ n - 1) = (a.extractLsb' k n).setWidth 64 := by
  apply BitVec.eq_of_getLsbD_eq
  intro i hi
  rw [BitVec.getLsbD_and, Iss.getLsbD_lowMask n i hn]
  by_cases h : i < n <;> simp [h, hi]

/-- The region of an address, as the interpreter takes it out. -/
theorem region_eq (a : BitVec 64) : (a >>> 62) &&& 0x3 = (a.extractLsb' 62 2).setWidth 64 :=
  field_eq a 62 2 (by decide)

/-- Widening to a register loses nothing. -/
theorem setWidth_inj {n : Nat} (hn : n ≤ 64) {a b : BitVec n} :
    a.setWidth 64 = b.setWidth 64 ↔ a = b := by
  constructor
  · intro h
    have hcut := congrArg (BitVec.setWidth n) h
    rwa [BitVec.setWidth_setWidth_of_le _ hn, BitVec.setWidth_setWidth_of_le _ hn,
      BitVec.setWidth_eq, BitVec.setWidth_eq] at hcut
  · intro h
    rw [h]

theorem region_eq_iff (a b : BitVec 64) :
    (a >>> 62) &&& (0x3 : BitVec 64) = (b >>> 62) &&& (0x3 : BitVec 64) ↔
      a.extractLsb' 62 2 = b.extractLsb' 62 2 := by
  rw [region_eq, region_eq, setWidth_inj (by decide)]

/-- The two compare the page of an address alike. -/
theorem hit8k_of (e : TlbEntry) (va : BitVec 64) :
    (TlbStored.of e).hit8k va =
      ((va &&& e.vpnMask) == (e.entryHi &&& e.vpnMask)
        && ((va >>> 62) &&& 0x3) == ((e.entryHi >>> 62) &&& 0x3)) := by
  have hcast : ((3 : Nat) : BitVec 64) = 0x3 := rfl
  rw [Bool.eq_iff_iff, hcast]
  simp only [TlbStored.hit8k, Bool.and_eq_true, beq_iff_eq, vpnMatch_of, region_eq_iff]
  exact and_congr_right fun _ => eq_comm

/-- The values of PageMask that stand for a page size. -/
def pageSizes : List (BitVec 12) := [0x000, 0x003, 0x00f, 0x03f, 0x0ff, 0x3ff, 0xfff]

/-- The mask of a page size is a row of ones, two for each size. -/
theorem pagemask_of_size (e : TlbStored) (h : e.pagemask ∈ pageSizes) :
    e.pgsz ≤ 6 ∧ e.pagemask = BitVec.ofNat 12 (2 ^ (2 * e.pgsz) - 1) := by
  unfold TlbStored.pgsz
  generalize e.pagemask = m at h ⊢
  simp only [pageSizes, List.mem_cons, List.not_mem_nil, or_false] at h
  rcases h with rfl | rfl | rfl | rfl | rfl | rfl | rfl <;> decide

/-- The entry has one of the page sizes. -/
def HasSize (e : TlbEntry) : Prop := e.pageMask.extractLsb' 13 12 ∈ pageSizes

instance (e : TlbEntry) : Decidable (HasSize e) := inferInstanceAs (Decidable (_ ∈ _))

variable {e : TlbEntry}

theorem pairMask_of_size (h : HasSize e) :
    e.pairMask = BitVec.ofNat 64 (2 ^ (13 + 2 * (TlbStored.of e).pgsz) - 1) := by
  obtain ⟨hk, hm⟩ := pagemask_of_size (TlbStored.of e) h
  generalize (TlbStored.of e).pgsz = k at hk hm ⊢
  apply BitVec.eq_of_getLsbD_eq
  intro i hi
  rw [TlbEntry.pairMask, BitVec.getLsbD_or, getLsbD_pm, Iss.getLsbD_pageBits,
    Iss.getLsbD_lowMask _ _ (by omega)]
  by_cases h13 : i < 13
  · have hlow : i < 13 + 2 * k := by omega
    simp [h13, hlow]
  · have hbit := congrArg (BitVec.getLsbD · (i - 13)) hm
    have hadd : 13 + (i - 13) = i := by omega
    have hsub : i - 13 < 2 * k ↔ i < 13 + 2 * k := by omega
    simp only [TlbStored.of, BitVec.getLsbD_extractLsb', BitVec.getLsbD_ofNat,
      Nat.testBit_two_pow_sub_one, hadd, hsub] at hbit
    by_cases h25 : i < 25
    · have h12 : i - 13 < 12 := by omega
      have h13' : 13 ≤ i := by omega
      simpa [h25, h12, h13, h13'] using hbit
    · have hhigh : ¬ i < 13 + 2 * k := by omega
      simp [h13, h25, hhigh]

theorem selBit_of_size (h : HasSize e) :
    e.selBit = BitVec.twoPow 64 (12 + 2 * (TlbStored.of e).pgsz) := by
  have hk := (pagemask_of_size (TlbStored.of e) h).1
  rw [TlbEntry.selBit, pairMask_of_size h]
  generalize (TlbStored.of e).pgsz = k at hk ⊢
  interval_cases k <;> decide

theorem offMask_of_size (h : HasSize e) :
    e.offMask = BitVec.ofNat 64 (2 ^ (12 + 2 * (TlbStored.of e).pgsz) - 1) := by
  have hk := (pagemask_of_size (TlbStored.of e) h).1
  rw [TlbEntry.offMask, pairMask_of_size h]
  generalize (TlbStored.of e).pgsz = k at hk ⊢
  interval_cases k <;> decide

/-- An entry of one of the sizes has the same page for an address in both. -/
theorem page_of_size (h : HasSize e) (va : BitVec 64) :
    (TlbStored.of e).page va = .stored (e.lo va) := by
  have hk := (pagemask_of_size (TlbStored.of e) h).1
  rw [TlbStored.page, TlbEntry.lo, selBit_of_size h, BitVec.and_twoPow]
  by_cases hbit : va.getLsbD (12 + 2 * (TlbStored.of e).pgsz) = true
  · have hne : BitVec.twoPow 64 (12 + 2 * (TlbStored.of e).pgsz) ≠ 0 := by
      generalize (TlbStored.of e).pgsz = k at hk ⊢
      interval_cases k <;> decide
    simp only [hbit, if_true, bne_iff_ne.mpr hne]
    rfl
  · simp only [hbit]
    rfl

/-- The frame number of the page for an address is aligned to the page's size. -/
def Aligned (e : TlbEntry) (va : BitVec 64) : Prop :=
  (e.lo va).extractLsb' 6 12 &&& e.pageMask.extractLsb' 13 12 = 0

instance (e : TlbEntry) (va : BitVec 64) : Decidable (Aligned e va) :=
  inferInstanceAs (Decidable (_ = _))

/-- In the bits that the TLB stores, a page of one of the sizes whose frame is aligned to
its size gives the same physical address in both. -/
theorem pa_of_size (h : HasSize e) {va : BitVec 64} (ha : Aligned e va) :
    ((TlbStored.of e).pa va).setWidth 30 = ((e.pa va).setWidth 32).setWidth 30 := by
  obtain ⟨hk, hm⟩ := pagemask_of_size (TlbStored.of e) h
  rw [TlbStored.pa, TlbEntry.pa, offMask_of_size h, page_of_size h]
  generalize (TlbStored.of e).pgsz = k at hk hm ⊢
  have hframe (j : Nat) (hj : j < 2 * k) : (e.lo va).getLsbD (6 + j) = false := by
    have hj12 : j < 12 := by omega
    have hone : e.pageMask.getLsbD (13 + j) = true := by
      have hbit := congrArg (BitVec.getLsbD · j) hm
      simp only [TlbStored.of, BitVec.getLsbD_extractLsb', BitVec.getLsbD_ofNat,
        Nat.testBit_two_pow_sub_one] at hbit
      simpa [hj12, hj] using hbit
    have hbit := congrArg (BitVec.getLsbD · j) ha
    simpa [hj12, hone] using hbit
  have hcut : (0xfffffff : BitVec 64) = BitVec.ofNat 64 (2 ^ 28 - 1) := by decide
  apply BitVec.eq_of_getLsbD_eq
  intro i hi
  have h32 : i < 32 := by omega
  have h36 : i < 36 := by omega
  have h64 : i < 64 := by omega
  simp only [BitVec.getLsbD_setWidth, BitVec.getLsbD_or, BitVec.getLsbD_shiftLeft,
    BitVec.getLsbD_ushiftRight, BitVec.getLsbD_and, hcut, Iss.getLsbD_lowMask 28 _ (by decide),
    Iss.getLsbD_lowMask (12 + 2 * k) i (by omega), BitVec.getLsbD_ofNat,
    Nat.testBit_two_pow_sub_one, EntryLo.stored, BitVec.getLsbD_extractLsb']
  by_cases h12 : i < 12
  · simp [hi, h12, h32, h36]
  -- above the smallest offset: the frame, unless the page covers the bit
  have hframe28 : i - 12 < 28 := by omega
  have hframe24 : i - 12 < 24 := by omega
  by_cases hoff : i - 12 < 2 * k
  · have hoff' : i < 12 + 2 * k := by omega
    simp [hi, h12, h32, h36, h64, hoff, hoff', hframe (i - 12) hoff]
  · have hoff' : ¬ i < 12 + 2 * k := by omega
    have hadd : 2 * k + (i - 12 - 2 * k) = i - 12 := by omega
    have hframe18 : i - 12 < 18 := by omega
    have hpage : i - 12 < 36 := by omega
    simp only [h12, h32, h36, h64, hoff, hoff', hadd, hframe18, hframe24, hframe28, hpage]
    simp

end Mmu

end R9999
