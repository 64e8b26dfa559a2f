import R9999.Mmu.Segment

/-!
# TLB exceptions

What a TLB exception records.  The interpreter keeps Context, XContext and EntryHi as
values, in which the fields of the faulting address are replaced, the RTL as fields, which
are put together when the register is read.
-/

namespace R9999

namespace Mmu

open Iss (State Cpr0 sext32 segbits vpn2Mask srExl srErl srBev causeExcCode)

/-- The registers that a TLB exception adds to are the same in both. -/
structure Recording (s : State) (r : TlbRegs) : Prop where
  asid : r.entryhiAsid = (s.cpr0_64 Cpr0.entryHi).setWidth 8
  context : s.cpr0_64 Cpr0.context &&& ~~~0x7fffff#64 =
    (r.ptebase ++ (0 : BitVec 23) : BitVec 32).signExtend 64
  xcontext : s.cpr0_64 Cpr0.xcontext &&& (BitVec.allOnes 64 <<< (segbits - 7)) =
    r.xptebase.setWidth 64 <<< 33

/-- The registers that a TLB exception records, and the vector it goes to. -/
def faultOf (s : State) : Fault where
  code := (s.cpr0 Cpr0.cause).extractLsb' 2 5
  vector := s.pc
  badVAddr := s.cpr0_64 Cpr0.badVAddr
  context := s.cpr0_64 Cpr0.context
  xcontext := s.cpr0_64 Cpr0.xcontext
  entryHi := s.cpr0_64 Cpr0.entryHi

theorem vpn2_eq (va : BitVec 64) :
    (va >>> 13) &&& vpn2Mask = (va.extractLsb' 13 27).setWidth 64 := by
  have hmask : vpn2Mask = BitVec.ofNat 64 (2 ^ 27 - 1) := by decide
  rw [hmask, field_eq va 13 27 (by decide)]

theorem asid_eq (v : BitVec 64) : v &&& 0xff = (v.setWidth 8).setWidth 64 := by
  have hmask : (0xff : BitVec 64) = BitVec.ofNat 64 (2 ^ 8 - 1) := by decide
  have h := field_eq v 0 8 (by decide)
  rw [BitVec.ushiftRight_zero, ← hmask] at h
  rw [h]
  rfl

/-- EntryHi after a TLB exception. -/
theorem entryHi_eq (r : TlbRegs) :
    (r.entryhiR.setWidth 64 <<< 62) ||| (r.entryhiVpn2.setWidth 64 <<< 13) |||
      r.entryhiAsid.setWidth 64 = r.entryHi := by
  have happend := (BitVec.setWidth_eq r.entryHi).symm
  rw [happend, TlbRegs.entryHi]
  simp only [BitVec.setWidth_append_eq_shiftLeft_setWidth_or, BitVec.shiftLeft_or_distrib]
  simp

theorem entryHi_asid (r : TlbRegs) : r.entryHi.setWidth 8 = r.entryhiAsid :=
  BitVec.setWidth_append_eq_right

theorem entryHi_vpn (r : TlbRegs) : r.entryHi.extractLsb' 13 27 = r.entryhiVpn2 := by
  rw [TlbRegs.entryHi, BitVec.extractLsb'_append_eq_of_le (by decide),
    BitVec.extractLsb'_append_eq_of_le (by decide)]
  exact BitVec.extractLsb'_append_eq_right

theorem entryHi_r (r : TlbRegs) : r.entryHi.extractLsb' 62 2 = r.entryhiR := by
  rw [TlbRegs.entryHi, BitVec.extractLsb'_append_eq_of_le (by decide),
    BitVec.extractLsb'_append_eq_of_le (by decide),
    BitVec.extractLsb'_append_eq_of_le (by decide)]
  exact BitVec.extractLsb'_append_eq_left

/-- Context after a TLB exception, from its upper bits. -/
theorem context_eq (r : TlbRegs) :
    ((r.ptebase ++ (0 : BitVec 23) : BitVec 32).signExtend 64) |||
      ((r.badvpn2.setWidth 19).setWidth 64 <<< 4) = r.context := by
  have hlow : ((r.badvpn2.setWidth 19).setWidth 64 <<< 4 : BitVec 64) =
      ((r.badvpn2.setWidth 19).setWidth 32 <<< 4 : BitVec 32).signExtend 64 := by
    have hpos : ((r.badvpn2.setWidth 19).setWidth 32 <<< 4 : BitVec 32).msb = false := by
      simp [BitVec.msb_eq_getLsbD_last]
    rw [BitVec.signExtend_eq_setWidth_of_msb_false hpos]
    apply BitVec.eq_of_getLsbD_eq
    intro i hi
    by_cases h19 : i - 4 < 19
    · have h32 : i < 32 := by omega
      simp [hi, h19, h32]
    · simp [h19]
  have happend : (r.ptebase ++ r.badvpn2.setWidth 19 ++ (0 : BitVec 4) : BitVec 32) =
      (r.ptebase ++ (0 : BitVec 23) : BitVec 32) |||
        ((r.badvpn2.setWidth 19).setWidth 32 <<< 4) := by
    rw [← BitVec.setWidth_eq (r.ptebase ++ r.badvpn2.setWidth 19 ++ (0 : BitVec 4) : BitVec 32),
      ← BitVec.setWidth_eq (r.ptebase ++ (0 : BitVec 23) : BitVec 32)]
    simp only [BitVec.setWidth_append_eq_shiftLeft_setWidth_or, BitVec.shiftLeft_or_distrib]
    simp
  rw [hlow, ← BitVec.signExtend_or, ← happend]
  rfl

/-- XContext after a TLB exception, from its upper bits. -/
theorem xcontext_eq (r : TlbRegs) :
    (r.xptebase.setWidth 64 <<< 33) ||| (r.badvpn2.setWidth 64 <<< 4) |||
      (r.entryhiR.setWidth 64 <<< 31) = r.xcontext := by
  have happend := (BitVec.setWidth_eq r.xcontext).symm
  rw [happend, TlbRegs.xcontext]
  simp only [BitVec.setWidth_append_eq_shiftLeft_setWidth_or, BitVec.shiftLeft_or_distrib]
  rw [BitVec.or_assoc, BitVec.or_comm (r.badvpn2.setWidth 64 <<< 4), ← BitVec.or_assoc]
  simp

variable (s : State) (va : BitVec 64)

theorem setExcPc_cpr0_64 {r : Cpr0} (hr : r ≠ Cpr0.epc) :
    (Iss.setExcPc s).cpr0_64 r = s.cpr0_64 r := by
  unfold Iss.setExcPc
  dsimp only
  split
  · rfl
  · split <;> exact Function.update_of_ne hr _ _

theorem setExcPc_sr : (Iss.setExcPc s).cpr0 Cpr0.sr = s.cpr0 Cpr0.sr := by
  unfold Iss.setExcPc
  dsimp only
  split
  · rfl
  · split <;> rfl

/-- What an exception leaves alone besides the general registers. -/
theorem setExcPc_keeps :
    (Iss.setExcPc s).tlbExt = s.tlbExt ∧
      (Iss.setExcPc s).cpr0 Cpr0.index = s.cpr0 Cpr0.index ∧
      (Iss.setExcPc s).cpr0 Cpr0.pageMask = s.cpr0 Cpr0.pageMask := by
  unfold Iss.setExcPc
  dsimp only
  split
  · exact ⟨rfl, rfl, rfl⟩
  · split <;> exact ⟨rfl, rfl, rfl⟩

theorem tlbSetFaultState_sr : (Iss.tlbSetFaultState s va).cpr0 Cpr0.sr = s.cpr0 Cpr0.sr := rfl

/-- A TLB exception leaves what it records to `tlb_set_fault_state`. -/
theorem raiseTlb_cpr0_64 (code : BitVec 32) (refill xtlb : Bool) {r : Cpr0}
    (hr : r ≠ Cpr0.epc) :
    (Iss.raiseTlb s va code refill xtlb).cpr0_64 r = (Iss.tlbSetFaultState s va).cpr0_64 r :=
  setExcPc_cpr0_64 (Iss.tlbSetFaultState s va) hr

theorem raiseTlb_code (code : BitVec 5) (refill xtlb : Bool) :
    ((Iss.raiseTlb s va (code.setWidth 32) refill xtlb).cpr0 Cpr0.cause).extractLsb' 2 5 =
      code := by
  show (((Iss.setExcPc (Iss.tlbSetFaultState s va)).cpr0 Cpr0.cause &&& ~~~causeExcCode) |||
    (code.setWidth 32 <<< 2)).extractLsb' 2 5 = code
  have hmask : (~~~causeExcCode : BitVec 32).extractLsb' 2 5 = 0#5 := by decide
  have hcode : (code.setWidth 32 <<< 2 : BitVec 32).extractLsb' 2 5 = code := by
    apply BitVec.eq_of_getLsbD_eq
    intro i hi
    have h32 : 2 + i < 32 := by omega
    have hge : 1 < 2 + i := by omega
    simp [hi, h32, hge]
  rw [BitVec.extractLsb'_or, BitVec.extractLsb'_and, hmask, hcode, BitVec.and_zero,
    BitVec.zero_or]

/-- Entering an exception keeps Status.BEV. -/
theorem bev_enter (sr : BitVec 32) :
    ((sr &&& ~~~srErl) ||| srExl) &&& srBev = sr &&& srBev := by
  have hkeep : ~~~srErl &&& srBev = srBev := by decide
  have hnew : srExl &&& srBev = 0#32 := by decide
  rw [BitVec.and_or_distrib_right, BitVec.and_assoc, hkeep, hnew, BitVec.or_zero]

/-- The vector of a TLB exception. -/
theorem raiseTlb_pc (code : BitVec 32) (refill : Bool) :
    (Iss.raiseTlb s va code refill (in64bMode (s.cpr0 Cpr0.sr))).pc =
      vector (s.cpr0 Cpr0.sr) refill := by
  have hbev : State.srHas ((Iss.setExcPc (Iss.tlbSetFaultState s va)).enterException code) srBev =
      srHas (s.cpr0 Cpr0.sr) srBev := by
    show ((((Iss.setExcPc (Iss.tlbSetFaultState s va)).cpr0 Cpr0.sr &&& ~~~srErl) ||| srExl) &&&
      srBev != 0) = (s.cpr0 Cpr0.sr &&& srBev != 0)
    rw [setExcPc_sr, tlbSetFaultState_sr, bev_enter]
  have hexl : s.srHas srExl = srHas (s.cpr0 Cpr0.sr) srExl := rfl
  show sext32 (Iss.excVector ((Iss.setExcPc (Iss.tlbSetFaultState s va)).enterException code)
    (refill && !s.srHas srExl) (s.srHas srExl) (in64bMode (s.cpr0 Cpr0.sr))) = _
  rw [vector, Iss.excVector, Iss.vectorBase, hbev, hexl, sext32]
  cases srHas (s.cpr0 Cpr0.sr) srBev <;> cases srHas (s.cpr0 Cpr0.sr) srExl <;>
    cases in64bMode (s.cpr0 Cpr0.sr) <;> cases refill <;> decide

/-- The registers after the interpreter's fault, as one that was recorded. -/
theorem tlbSetFaultState_entryHi {r : TlbRegs} (h : Recording s r) :
    (Iss.tlbSetFaultState s va).cpr0_64 Cpr0.entryHi = (r.saveFault va).entryHi := by
  rw [← entryHi_eq]
  show (((va >>> 62) &&& 0x3) <<< 62) ||| (((va >>> 13) &&& vpn2Mask) <<< 13) |||
    (s.cpr0_64 Cpr0.entryHi &&& 0xff) = _
  rw [region_eq, vpn2_eq, asid_eq, ← h.asid]
  rfl

theorem tlbSetFaultState_context {r : TlbRegs} (h : Recording s r) :
    (Iss.tlbSetFaultState s va).cpr0_64 Cpr0.context = (r.saveFault va).context := by
  rw [← context_eq]
  show (s.cpr0_64 Cpr0.context &&& ~~~0x7fffff#64) ||| (((va >>> 13) &&& 0x7ffff) <<< 4) = _
  have hmask : (0x7ffff : BitVec 64) = BitVec.ofNat 64 (2 ^ 19 - 1) := by decide
  have hcut : (va.extractLsb' 13 27).setWidth 19 = va.extractLsb' 13 19 := by
    apply BitVec.eq_of_getLsbD_eq
    intro i hi
    have h27 : i < 27 := by omega
    simp [hi, h27]
  rw [h.context, hmask, field_eq va 13 19 (by decide), ← hcut]
  rfl

theorem tlbSetFaultState_xcontext {r : TlbRegs} (h : Recording s r) :
    (Iss.tlbSetFaultState s va).cpr0_64 Cpr0.xcontext = (r.saveFault va).xcontext := by
  rw [← xcontext_eq]
  show (s.cpr0_64 Cpr0.xcontext &&& (BitVec.allOnes 64 <<< (segbits - 7))) |||
    (((va >>> 13) &&& vpn2Mask) <<< 4) ||| (((va >>> 62) &&& 0x3) <<< (segbits - 9)) = _
  rw [h.xcontext, vpn2_eq, region_eq]
  rfl

/-- A TLB exception in the interpreter records what the RTL records, and goes to the same
vector. -/
theorem faultOf_raiseTlb {r : TlbRegs} (h : Recording s r) (code : BitVec 5) (refill : Bool) :
    faultOf (Iss.raiseTlb s va (code.setWidth 32) refill (in64bMode (s.cpr0 Cpr0.sr))) =
      { code, vector := vector (s.cpr0 Cpr0.sr) refill, badVAddr := va,
        context := (r.saveFault va).context, xcontext := (r.saveFault va).xcontext,
        entryHi := (r.saveFault va).entryHi } := by
  unfold faultOf
  rw [raiseTlb_code, raiseTlb_pc, raiseTlb_cpr0_64 _ _ _ _ _ (by decide),
    raiseTlb_cpr0_64 _ _ _ _ _ (by decide), raiseTlb_cpr0_64 _ _ _ _ _ (by decide),
    raiseTlb_cpr0_64 _ _ _ _ _ (by decide), tlbSetFaultState_entryHi s va h,
    tlbSetFaultState_context s va h, tlbSetFaultState_xcontext s va h]
  rfl

/-- A field below a mask leaves what the mask keeps. -/
theorem field_and_mask {n k : Nat} (f : BitVec n) {m : BitVec 64}
    (hm : ∀ i, i < k + n → m.getLsbD i = false) : (f.setWidth 64 <<< k) &&& m = 0#64 := by
  apply BitVec.eq_of_getLsbD_eq
  intro i hi
  by_cases h : i < k + n
  · simp [hm i h]
  · have hout : n ≤ i - k := by omega
    simp [BitVec.getLsbD_of_ge f (i - k) hout]

theorem or_field_and_mask {p m low : BitVec 64} {a : BitVec 64} (hp : a &&& m = p)
    (hlow : low &&& m = 0#64) : (p ||| low) &&& m = p := by
  rw [BitVec.and_or_distrib_right, hlow, BitVec.or_zero, ← hp, BitVec.and_assoc,
    BitVec.and_self]

/-- After a TLB exception the registers that it adds to are the same still. -/
theorem Recording.raiseTlb {r : TlbRegs} (h : Recording s r) (code : BitVec 32)
    (refill xtlb : Bool) :
    Recording (Iss.raiseTlb s va code refill xtlb) (r.saveFault va) := by
  constructor
  · rw [raiseTlb_cpr0_64 _ _ _ _ _ (by decide), tlbSetFaultState_entryHi s va h]
    exact (entryHi_asid _).symm
  · rw [raiseTlb_cpr0_64 _ _ _ _ _ (by decide), tlbSetFaultState_context s va h, ← context_eq]
    have hmask : (0x7fffff#64) = BitVec.ofNat 64 (2 ^ 23 - 1) := by decide
    refine or_field_and_mask h.context (field_and_mask _ ?_)
    intro i hi
    have h23 : i < 23 := hi
    rw [hmask, BitVec.getLsbD_not, Iss.getLsbD_lowMask 23 i (by decide)]
    simp [h23]
  · rw [raiseTlb_cpr0_64 _ _ _ _ _ (by decide), tlbSetFaultState_xcontext s va h,
      ← xcontext_eq]
    have hzero : ∀ i < 33, (BitVec.allOnes 64 <<< (segbits - 7)).getLsbD i = false := by
      intro i hi
      have h33 : i < segbits - 7 := hi
      simp [h33]
    rw [BitVec.or_assoc]
    refine or_field_and_mask h.xcontext ?_
    rw [BitVec.and_or_distrib_right,
      field_and_mask _ (fun i hi => hzero i (Nat.lt_of_lt_of_le hi (by decide))),
      field_and_mask _ (fun i hi => hzero i hi), BitVec.or_zero]

end Mmu

end R9999
