import R9999.Iss.Coproc
import R9999.Mmu.Fault

/-!
# The registers and the entries of the TLB

The interpreter and the RTL keep the same entries and the same staging registers, up to the
bits that the RTL implements, and every instruction that writes them keeps it so.
-/

namespace R9999

namespace Mmu

open Iss (State Cpr0 TlbEntry numTlbEntries sext32)

/-- The interpreter and the RTL have the same entries and the same registers. -/
structure Matches (s : State) (t : Rtl) : Prop where
  /-- The interpreter writes its TLB itself. -/
  mirror : s.tlbExt = false
  tlb : ∀ i, t.tlb i = .of (s.tlb i)
  /-- An entry that was never written is all zeros. -/
  blank : ∀ i, t.written i = false → s.tlb i = {}
  staged : t.regs.staged = .of s.staged
  index : t.regs.index = (s.cpr0 Cpr0.index).setWidth 6
  recording : Recording s t.regs

variable {s s' : State} {t : Rtl}

/-- What else the interpreter keeps does not matter. -/
theorem Matches.congr (h : Matches s t) (hmirror : s'.tlbExt = s.tlbExt) (htlb : s'.tlb = s.tlb)
    (hregs : s'.cpr0_64 = s.cpr0_64) (hindex : s'.cpr0 Cpr0.index = s.cpr0 Cpr0.index)
    (hmask : s'.cpr0 Cpr0.pageMask = s.cpr0 Cpr0.pageMask) : Matches s' t where
  mirror := hmirror.trans h.mirror
  tlb i := by rw [htlb, h.tlb i]
  blank i hi := by rw [htlb, h.blank i hi]
  staged := by
    rw [h.staged]
    unfold State.staged
    rw [hregs, hmask]
  index := by rw [hindex, h.index]
  recording :=
    { asid := by rw [hregs, h.recording.asid]
      context := by rw [hregs, h.recording.context]
      xcontext := by rw [hregs, h.recording.xcontext] }

/-! ## MTC0 and DMTC0 -/

/-- The number of the register. -/
def StagingReg.num : StagingReg → Cpr0
  | .index => Cpr0.index
  | .entryLo0 => Cpr0.entryLo0
  | .entryLo1 => Cpr0.entryLo1
  | .pageMask => Cpr0.pageMask
  | .entryHi => Cpr0.entryHi

/-- A field of the lower word. -/
theorem field_of_word (v : BitVec 64) (k n : Nat) (h : k + n ≤ 32) :
    (v.setWidth 32).extractLsb' k n = v.extractLsb' k n := by
  apply BitVec.eq_of_getLsbD_eq
  intro i hi
  have h32 : k + i < 32 := by omega
  simp [hi, h32]

/-- The TLB stores fields of the lower word of EntryLo. -/
theorem EntryLo.stored_of_word {v v' : BitVec 64} (h : v'.setWidth 32 = v.setWidth 32) :
    EntryLo.stored v' = .stored v := by
  have hfield (k n : Nat) (hk : k + n ≤ 32) : v'.extractLsb' k n = v.extractLsb' k n := by
    rw [← field_of_word v' k n hk, h, field_of_word v k n hk]
  have hbit (k : Nat) (hk : k < 32) : v'.getLsbD k = v.getLsbD k := by
    have hword := congrArg (BitVec.getLsbD · k) h
    simpa [hk] using hword
  unfold stored
  rw [hfield 6 18 (by decide), hfield 3 3 (by decide), hbit 2 (by decide), hbit 1 (by decide),
    hbit 0 (by decide)]

/-- The fields of a value written to EntryLo, cut to what the TLB stores. -/
theorem EntryLo.ofValue_stored (v : BitVec 64) :
    { EntryLo.ofValue v with pfn := (EntryLo.ofValue v).pfn.setWidth 18 } = EntryLo.stored v := by
  have hpfn : (v.extractLsb' 6 24).setWidth 18 = v.extractLsb' 6 18 := by
    apply BitVec.eq_of_getLsbD_eq
    intro i hi
    have h24 : i < 24 := by omega
    simp [hi, h24]
  show EntryLo.mk _ _ _ _ _ = EntryLo.mk _ _ _ _ _
  rw [← hpfn]
  rfl

/-- A write of a staging register, of which the registers of 32 bits keep the lower word
alone. -/
theorem Matches.write (h : Matches s t) (reg : StagingReg) {v v' : BitVec 64}
    (hword : v'.setWidth 32 = v.setWidth 32) (hhi : reg = .entryHi → v' = v) :
    Matches (s.setCpr0Both reg.num v') { t with regs := t.regs.write reg v } := by
  have hrec : ∀ r : TlbRegs, r.ptebase = t.regs.ptebase → r.xptebase = t.regs.xptebase →
      r.entryhiAsid = ((s.setCpr0Both reg.num v').cpr0_64 Cpr0.entryHi).setWidth 8 →
      Recording (s.setCpr0Both reg.num v') r := by
    intro r hpte hxpte hasid
    refine ⟨hasid, ?_, ?_⟩
    · rw [hpte, ← h.recording.context]
      cases reg <;> rfl
    · rw [hxpte, ← h.recording.xcontext]
      cases reg <;> rfl
  cases reg with
  | index =>
    refine ⟨h.mirror, h.tlb, h.blank, h.staged, ?_, hrec _ rfl rfl h.recording.asid⟩
    show v.setWidth 6 = (v'.setWidth 32).setWidth 6
    rw [hword, BitVec.setWidth_setWidth_of_le _ (by decide)]
  | entryLo0 =>
    refine ⟨h.mirror, h.tlb, h.blank, ?_, h.index, hrec _ rfl rfl h.recording.asid⟩
    show ({ t.regs.staged with
      page0 := { EntryLo.ofValue v with pfn := (EntryLo.ofValue v).pfn.setWidth 18 } } :
        TlbStored) = { TlbStored.of s.staged with page0 := .stored v' }
    rw [h.staged, EntryLo.ofValue_stored, EntryLo.stored_of_word hword]
  | entryLo1 =>
    refine ⟨h.mirror, h.tlb, h.blank, ?_, h.index, hrec _ rfl rfl h.recording.asid⟩
    show ({ t.regs.staged with
      page1 := { EntryLo.ofValue v with pfn := (EntryLo.ofValue v).pfn.setWidth 18 } } :
        TlbStored) = { TlbStored.of s.staged with page1 := .stored v' }
    rw [h.staged, EntryLo.ofValue_stored, EntryLo.stored_of_word hword]
  | pageMask =>
    refine ⟨h.mirror, h.tlb, h.blank, ?_, h.index, hrec _ rfl rfl h.recording.asid⟩
    show ({ t.regs.staged with pagemask := v.extractLsb' 13 12 } : TlbStored) =
      { TlbStored.of s.staged with pagemask := (v'.setWidth 32).extractLsb' 13 12 }
    rw [h.staged, hword, field_of_word v 13 12 (by decide)]
  | entryHi =>
    rw [hhi rfl] at hrec ⊢
    refine ⟨h.mirror, h.tlb, h.blank, ?_, h.index, hrec _ rfl rfl rfl⟩
    show ({ t.regs.staged with
      asid := v.setWidth 8, r := v.extractLsb' 62 2, vpn := v.extractLsb' 13 27 } :
        TlbStored) = { TlbStored.of s.staged with
      asid := v.setWidth 8, r := v.extractLsb' 62 2, vpn := v.extractLsb' 13 27 }
    rw [h.staged]

theorem writeCpr0_staging (s : State) (reg : StagingReg) (v : BitVec 64) :
    Iss.writeCpr0 s reg.num v = s.setCpr0Both reg.num v := by
  cases reg <;> rfl

theorem sext32_setWidth (w : BitVec 32) : (sext32 w).setWidth 32 = w := by
  apply BitVec.eq_of_getLsbD_eq
  intro i hi
  have h64 : i < 64 := by omega
  rw [BitVec.getLsbD_setWidth, sext32, BitVec.getLsbD_signExtend, if_pos hi]
  simp [hi, h64]

/-- MTC0 writes the whole register to EntryHi, and its lower word, with the sign extended,
to the others. -/
theorem Matches.mtc0 (h : Matches s t) (reg : StagingReg) (v : BitVec 64) :
    Matches (Iss.writeCpr0 s reg.num (Iss.mtc0Value reg.num v))
      { t with regs := t.regs.write reg v } := by
  rw [writeCpr0_staging]
  refine h.write reg ?_ ?_
  · have hword : (sext32 (Iss.lo32 v)).setWidth 32 = v.setWidth 32 := sext32_setWidth _
    cases reg with
    | entryHi => rfl
    | _ => exact hword
  · rintro rfl
    rfl

theorem Matches.dmtc0 (h : Matches s t) (reg : StagingReg) (v : BitVec 64) :
    Matches (Iss.writeCpr0 s reg.num v) { t with regs := t.regs.write reg v } := by
  rw [writeCpr0_staging]
  exact h.write reg rfl fun _ => rfl

/-! ## TLBWI, TLBWR and TLBR -/

/-- The write of an entry. -/
theorem Matches.setEntry (h : Matches s t) (k : Fin numTlbEntries) :
    Matches (s.setTlb k s.staged)
      { t with
        tlb := Function.update t.tlb k t.regs.staged
        written := Function.update t.written k true } where
  mirror := h.mirror
  tlb i := by
    show Function.update t.tlb k t.regs.staged i = .of (Function.update s.tlb k s.staged i)
    rcases eq_or_ne i k with rfl | hne
    · rw [Function.update_self, Function.update_self, h.staged]
    · rw [Function.update_of_ne hne, Function.update_of_ne hne, h.tlb i]
  blank i hi := by
    have hold : Function.update t.written k true i = false := hi
    show Function.update s.tlb k s.staged i = {}
    rcases eq_or_ne i k with rfl | hne
    · rw [Function.update_self] at hold
      cases hold
    · rw [Function.update_of_ne hne] at hold ⊢
      exact h.blank i hold
  staged := h.staged
  index := h.index
  recording := ⟨h.recording.asid, h.recording.context, h.recording.xcontext⟩

/-- The write of an entry by an index that both have.  An index that is out of range writes
nothing. -/
theorem Matches.writeEntry (h : Matches s t) (idx : BitVec 6) :
    Matches (s.writeStaged (idx.setWidth 32)) (t.writeEntry idx) := by
  have hnat : (idx.setWidth 32).toNat = idx.toNat := BitVec.toNat_setWidth_of_le (by decide)
  unfold State.writeStaged Rtl.writeEntry
  rw [h.mirror]
  by_cases hidx : idx.toNat < numTlbEntries
  · have hidx' : (idx.setWidth 32).toNat < numTlbEntries := by rwa [hnat]
    have hfin : (⟨(idx.setWidth 32).toNat, hidx'⟩ : Fin numTlbEntries) = ⟨idx.toNat, hidx⟩ :=
      Fin.ext hnat
    rw [dif_pos hidx', dif_pos hidx, hfin]
    exact h.setEntry _
  · have hidx' : ¬ (idx.setWidth 32).toNat < numTlbEntries := by rwa [hnat]
    rw [dif_neg hidx', dif_neg hidx]
    exact h

/-- The six bits of a register that hold an index. -/
theorem index_field (v : BitVec 32) : v &&& 63 = (v.setWidth 6).setWidth 32 := by
  have hmask : (63 : BitVec 32) = BitVec.ofNat 32 (2 ^ 6 - 1) := by decide
  apply BitVec.eq_of_getLsbD_eq
  intro i hi
  rw [hmask, BitVec.getLsbD_and, BitVec.getLsbD_ofNat, Nat.testBit_two_pow_sub_one]
  by_cases h6 : i < 6 <;> simp [h6, hi]

/-- The index that TLBWI and TLBR take from Index. -/
theorem Matches.index_eq (h : Matches s t) :
    s.cpr0 Cpr0.index &&& 63 = t.regs.index.setWidth 32 := by
  rw [h.index, index_field]

/-- TLBWI. -/
theorem Matches.tlbwi (h : Matches s t) (g : Iss.MicroTlb) :
    Matches (Iss.tlbwi g s).1 (t.writeEntry t.regs.index) := by
  show Matches (s.writeStaged (s.cpr0 Cpr0.index &&& 63)) _
  rw [h.index_eq]
  exact h.writeEntry t.regs.index

/-- TLBWR where both take the same index from Random. -/
theorem Matches.tlbwr (h : Matches s t) (g : Iss.MicroTlb) (random : BitVec 6) :
    Matches (Iss.tlbwr g (s.setCpr0 Cpr0.random (random.setWidth 32))).1
      (t.writeEntry random) := by
  have hstart : Matches (s.setCpr0 Cpr0.random (random.setWidth 32)) t :=
    h.congr rfl rfl rfl rfl rfl
  have hidx : random.setWidth 32 &&& 63 = (random.setWidth 32 : BitVec 32) := by
    rw [index_field]
    simp
  have hwritten := hstart.writeEntry random
  unfold Iss.tlbwr
  dsimp only
  have hrandom : (s.setCpr0 Cpr0.random (random.setWidth 32)).cpr0 Cpr0.random =
      random.setWidth 32 := rfl
  rw [hrandom, hidx, hwritten.mirror]
  exact hwritten.congr rfl rfl rfl rfl rfl

/-- TLBR of an index in range. -/
theorem Matches.tlbr (h : Matches s t) (hidx : t.regs.index.toNat < numTlbEntries) :
    Matches (Iss.tlbr s) t.tlbr := by
  have hnat : (s.cpr0 Cpr0.index &&& 63).toNat = t.regs.index.toNat := by
    rw [h.index_eq]
    exact BitVec.toNat_setWidth_of_le (by decide)
  have hidx' : (s.cpr0 Cpr0.index &&& 63).toNat < numTlbEntries := by rwa [hnat]
  have hfin : (⟨(s.cpr0 Cpr0.index &&& 63).toNat, hidx'⟩ : Fin numTlbEntries) =
      ⟨t.regs.index.toNat, hidx⟩ := Fin.ext hnat
  unfold Iss.tlbr Rtl.tlbr
  rw [dif_pos hidx', dif_pos hidx, hfin]
  have hentry := h.tlb ⟨t.regs.index.toNat, hidx⟩
  generalize s.tlb ⟨t.regs.index.toNat, hidx⟩ = e at hentry ⊢
  rw [hentry]
  refine ⟨h.mirror, h.tlb, h.blank, ?_, h.index, ⟨rfl, h.recording.context, h.recording.xcontext⟩⟩
  simp [TlbRegs.staged, TlbStored.of, EntryLo.stored, State.staged, State.setCpr0,
    State.setCpr0Both]

end Mmu

end R9999
