import Mathlib.Tactic.SplitIfs
import R9999.Iss.Translate

/-!
# The micro-TLB is transparent

An entry of the micro-TLB is keyed by a 4 KB page and an ASID, while an entry of the TLB is
chosen by region, page mask, global bits and position.  The choice depends on the address
only through its page, so what was found for one address of a page is what the TLB gives
for every other, until the TLB is written.
-/

namespace R9999

namespace Iss

variable {va va' : BitVec 64}

/-- Two addresses of one page agree above bit 11. -/
theorem getLsbD_of_page (h : va >>> 12 = va' >>> 12) {i : Nat} (hi : 12 ≤ i) :
    va.getLsbD i = va'.getLsbD i := by
  have hbit := congrArg (BitVec.getLsbD · (i - 12)) h
  simp only [BitVec.getLsbD_ushiftRight] at hbit
  rwa [show 12 + (i - 12) = i by omega] at hbit

/-- A mask that leaves the page offset out does not tell two addresses of one page
apart. -/
theorem and_of_page (h : va >>> 12 = va' >>> 12) {mask : BitVec 64}
    (hmask : ∀ i < 12, mask.getLsbD i = false) : va &&& mask = va' &&& mask := by
  apply BitVec.eq_of_getLsbD_eq
  intro i _
  rw [BitVec.getLsbD_and, BitVec.getLsbD_and]
  rcases Nat.lt_or_ge i 12 with hi | hi
  · rw [hmask i hi, Bool.and_false, Bool.and_false]
  · rw [getLsbD_of_page h hi]

theorem region_of_page (h : va >>> 12 = va' >>> 12) : va >>> 62 = va' >>> 62 := by
  have hshift (x : BitVec 64) : x >>> 62 = x >>> 12 >>> 50 := by
    rw [← BitVec.shiftRight_add]
  rw [hshift va, hshift va', h]

/-- The bits of `2 ^ n - 1`. -/
theorem getLsbD_lowMask (n i : Nat) (hn : n ≤ 64) :
    (BitVec.ofNat 64 (2 ^ n - 1)).getLsbD i = decide (i < n) := by
  rw [BitVec.getLsbD_ofNat, Nat.testBit_two_pow_sub_one]
  by_cases hi : i < n
  · simp [hi, Nat.lt_of_lt_of_le hi hn]
  · simp [hi]

theorem getLsbD_pageBits (i : Nat) : (0x1fff : BitVec 64).getLsbD i = decide (i < 13) :=
  getLsbD_lowMask 13 i (by decide)

theorem getLsbD_offsetBits (i : Nat) : (0xfff : BitVec 64).getLsbD i = decide (i < 12) :=
  getLsbD_lowMask 12 i (by decide)

namespace TlbEntry

variable (e : TlbEntry)

theorem getLsbD_pairMask {i : Nat} (hi : i < 13) : e.pairMask.getLsbD i = true := by
  rw [pairMask, BitVec.getLsbD_or, getLsbD_pageBits, decide_eq_true hi, Bool.or_true]

theorem getLsbD_vpnMask {i : Nat} (hi : i < 12) : e.vpnMask.getLsbD i = false := by
  have hpage : (e.pm ||| 0x1fff).getLsbD i = true := e.getLsbD_pairMask (by omega)
  rw [vpnMask, BitVec.getLsbD_and, BitVec.getLsbD_not, hpage]
  simp

/-- `pair_mask + 1` carries through the thirteen ones at its end. -/
theorem getLsbD_pairMask_add_one {i : Nat} (hi : i < 13) :
    (e.pairMask + 1).getLsbD i = false := by
  have hones : e.pairMask.setWidth 13 = BitVec.allOnes 13 := by
    apply BitVec.eq_of_getLsbD_eq
    intro j hj
    rw [BitVec.getLsbD_setWidth, e.getLsbD_pairMask hj, BitVec.getLsbD_allOnes, Bool.and_true]
  have hzero : (e.pairMask + 1).setWidth 13 = 0 := by
    rw [BitVec.setWidth_add _ _ (by decide), hones]
    decide
  have hbit := congrArg (BitVec.getLsbD · i) hzero
  simpa [hi] using hbit

theorem getLsbD_selBit {i : Nat} (hi : i < 12) : e.selBit.getLsbD i = false := by
  rw [selBit, BitVec.getLsbD_ushiftRight]
  exact e.getLsbD_pairMask_add_one (by omega)

theorem getLsbD_offMask {i : Nat} (hi : i < 12) : e.offMask.getLsbD i = true := by
  rw [offMask, BitVec.getLsbD_ushiftRight]
  exact e.getLsbD_pairMask (by omega)

theorem hits_of_page (h : va >>> 12 = va' >>> 12) (asid : BitVec 64) :
    e.hits va asid = e.hits va' asid := by
  unfold hits
  rw [and_of_page h (fun i hi => e.getLsbD_vpnMask hi), region_of_page h]

theorem lo_of_page (h : va >>> 12 = va' >>> 12) : e.lo va = e.lo va' := by
  unfold lo
  rw [and_of_page h (fun i hi => e.getLsbD_selBit hi)]

/-- The physical address is the page found for any address of the page, with the address's
own page offset. -/
theorem pa_of_page (h : va >>> 12 = va' >>> 12) :
    (e.pa va).setWidth 32 =
      ((e.pa va' >>> 12).setWidth 32 <<< 12) ||| (va &&& 0xfff).setWidth 32 := by
  apply BitVec.eq_of_getLsbD_eq
  intro i hi
  simp only [BitVec.getLsbD_setWidth, BitVec.getLsbD_or, BitVec.getLsbD_shiftLeft,
    BitVec.getLsbD_ushiftRight, BitVec.getLsbD_and, getLsbD_offsetBits, pa]
  rcases Nat.lt_or_ge i 12 with hlow | hhigh
  · simp [hi, hlow, e.getLsbD_offMask hlow]
  · have hsplit : 12 + (i - 12) = i := by omega
    have hnot : ¬ i < 12 := by omega
    have hword : i - 12 < 32 := by omega
    simp [hi, hnot, hword, hsplit, e.lo_of_page h, getLsbD_of_page h hhigh]

end TlbEntry

/-- The search of the TLB finds the same entry for two addresses of one page. -/
theorem tlbSearch_of_page (h : va >>> 12 = va' >>> 12)
    (tlb : Fin numTlbEntries → TlbEntry) (asid : BitVec 64) :
    tlbSearch tlb va asid = tlbSearch tlb va' asid := by
  unfold tlbSearch
  congr 1
  funext e
  exact e.hits_of_page h asid

/-- A valid entry of the micro-TLB says what the TLB gives for every address of its page
under its ASID: a valid page, which is dirty if and only if the entry is. -/
def UtlbEntry.Agrees (tlb : Fin numTlbEntries → TlbEntry) (ce : UtlbEntry) : Prop :=
  ce.valid = true → ∀ va : BitVec 64, va >>> 12 = ce.vpn →
    ∃ e, tlbSearch tlb va ce.asid = some e ∧ (e.lo va).getLsbD 1 = true ∧
      ce.dirty = (e.lo va).getLsbD 2 ∧
      (e.pa va).setWidth 32 = (ce.ppn <<< 12) ||| (va &&& 0xfff).setWidth 32

/-- The micro-TLB agrees with the TLB. -/
def MicroTlb.Agrees (g : MicroTlb) (tlb : Fin numTlbEntries → TlbEntry) : Prop :=
  ∀ i, (g i).Agrees tlb

/-- A flushed micro-TLB agrees with every TLB. -/
theorem utlbFlush_agrees (g : MicroTlb) (tlb : Fin numTlbEntries → TlbEntry) :
    MicroTlb.Agrees (utlbFlush g) tlb := by
  intro i hvalid
  cases hvalid

/-- What the search found for one address may be kept for its page. -/
theorem filled_agrees {tlb : Fin numTlbEntries → TlbEntry} {e : TlbEntry} {asid : BitVec 64}
    (hfind : tlbSearch tlb va asid = some e) (hv : (e.lo va).getLsbD 1 = true) :
    UtlbEntry.Agrees tlb
      { vpn := va >>> 12, asid, ppn := (e.pa va >>> 12).setWidth 32,
        dirty := (e.lo va).getLsbD 2, valid := true } := by
  intro _ va' hpage
  have hlo : e.lo va' = e.lo va := e.lo_of_page hpage
  refine ⟨e, ?_, ?_, ?_, e.pa_of_page hpage⟩
  · rw [tlbSearch_of_page hpage, hfind]
  · rw [hlo, hv]
  · rw [hlo]

theorem setExcPc_tlb (s : State) : (setExcPc s).tlb = s.tlb := by
  unfold setExcPc
  dsimp only
  split
  · rfl
  · split <;> rfl

@[simp] theorem raiseTlb_tlb (s : State) (va : BitVec 64) (code : BitVec 32)
    (refill xtlb : Bool) : (raiseTlb s va code refill xtlb).tlb = s.tlb :=
  setExcPc_tlb (tlbSetFaultState s va)

/-- The search of the TLB does not read the micro-TLB. -/
theorem camTranslate_ignores (g g' : MicroTlb) (s : State) (va : BitVec 64) (op : TlbOp) :
    (camTranslate g s va op).1 = (camTranslate g' s va op).1 ∧
      (camTranslate g s va op).2.1 = (camTranslate g' s va op).2.1 := by
  unfold camTranslate
  dsimp only
  cases tlbSearch s.tlb va (s.cpr0_64 Cpr0.entryHi &&& 0xff) with
  | none => exact ⟨rfl, rfl⟩
  | some e =>
    dsimp only
    split_ifs <;> exact ⟨rfl, rfl⟩

/-- What the search of the TLB puts into the micro-TLB agrees with the TLB. -/
theorem camTranslate_agrees {g : MicroTlb} {s : State} (hg : MicroTlb.Agrees g s.tlb)
    (va : BitVec 64) (op : TlbOp) :
    MicroTlb.Agrees (camTranslate g s va op).2.2 (camTranslate g s va op).2.1.tlb := by
  unfold camTranslate
  dsimp only
  cases hfind : tlbSearch s.tlb va (s.cpr0_64 Cpr0.entryHi &&& 0xff) with
  | none => simpa using hg
  | some e =>
    dsimp only
    by_cases hv : (e.lo va).getLsbD 1 = false
    · rw [if_pos hv]
      simpa using hg
    rw [if_neg hv]
    by_cases hd : op = .store ∧ (e.lo va).getLsbD 2 = false
    · rw [if_pos hd]
      simpa using hg
    · rw [if_neg hd]
      dsimp only
      intro i
      rcases eq_or_ne i ((va >>> 12).setWidth 6) with rfl | hi
      · rw [Function.update_self]
        exact filled_agrees hfind (by simpa using hv)
      · rw [Function.update_of_ne hi]
        exact hg i

/-- A hit gives what the search of the TLB gives, which raises nothing. -/
theorem camTranslate_of_hits {s : State} {ce : UtlbEntry} (hce : ce.Agrees s.tlb)
    (g : MicroTlb) (va : BitVec 64) (op : TlbOp)
    (hhit : ce.hits (va >>> 12) (s.cpr0_64 Cpr0.entryHi &&& 0xff) op = true) :
    (camTranslate g s va op).1 = (ce.ppn <<< 12) ||| (va &&& 0xfff).setWidth 32 ∧
      (camTranslate g s va op).2.1 = s := by
  obtain ⟨⟨⟨hvalid, hvpn⟩, hasid⟩, hclean⟩ :
      ((ce.valid = true ∧ ce.vpn = va >>> 12) ∧
        ce.asid = s.cpr0_64 Cpr0.entryHi &&& 0xff) ∧ (op = .store → ce.dirty = true) := by
    simpa [UtlbEntry.hits, ← Bool.not_eq_true, imp_iff_not_or] using hhit
  obtain ⟨e, hfind, hv, hd, hpa⟩ := hce hvalid va hvpn.symm
  have hstore : ¬ (op = .store ∧ (e.lo va).getLsbD 2 = false) := by
    rintro ⟨hop, hnot⟩
    rw [← hd, hclean hop] at hnot
    cases hnot
  unfold camTranslate
  dsimp only
  rw [← hasid, hfind]
  dsimp only
  rw [if_neg (by simp [hv]), if_neg hstore]
  exact ⟨hpa, rfl⟩

/-- One translation with the micro-TLB gives what it gives without, and leaves the
micro-TLB in agreement with the TLB. -/
theorem vaTranslate_transparent {g : MicroTlb} {s : State} (hg : MicroTlb.Agrees g s.tlb)
    (g' : MicroTlb) (va : BitVec 64) (op : TlbOp) :
    (vaTranslate false g s va op).1 = (vaTranslate true g' s va op).1 ∧
      (vaTranslate false g s va op).2.1 = (vaTranslate true g' s va op).2.1 ∧
      MicroTlb.Agrees (vaTranslate false g s va op).2.2
        (vaTranslate false g s va op).2.1.tlb := by
  unfold vaTranslate
  dsimp only
  generalize (if is64bAddrMode s = true then va else sext32 (va.setWidth 32)) = va
  -- the note of a load's address is not a write of the TLB
  have hnote : (if op = .load then { s with lastLdVa := va } else s).tlb = s.tlb := by
    split <;> rfl
  generalize (if op = .load then { s with lastLdVa := va } else s) = s₁ at hnote ⊢
  rw [← hnote] at hg
  cases unmapped va with
  | some pa => exact ⟨rfl, rfl, hg⟩
  | none =>
    dsimp only
    rw [if_neg (by simp : ¬ (true = false ∧ _))]
    split_ifs with hhit
    · obtain ⟨hpa, hs⟩ := camTranslate_of_hits (hg _) g' va op hhit.2
      exact ⟨hpa.symm, hs.symm, hg⟩
    · obtain ⟨hpa, hs⟩ := camTranslate_ignores g g' s₁ va op
      exact ⟨hpa, hs, camTranslate_agrees hg va op⟩

/-- What happens to the interpreter between two translations.  Whatever else runs (an
instruction's own effect, an exception, a change of the ASID or of the mode) reads and
writes the state as it likes, but not the TLB. -/
inductive TlbEvent where
  | translate (va : BitVec 64) (op : TlbOp)
  | other (f : State → State)
  | tlbwi
  | tlbwr
  | issApplyTlbWrite (idx : Int) (ehi elo0 elo1 : BitVec 64) (pm : BitVec 32)

/-- One event, and the physical address it gives. -/
def tlbStep (noUtlb : Bool) (g : MicroTlb) (s : State) : TlbEvent →
    BitVec 32 × State × MicroTlb
  | .translate va op => vaTranslate noUtlb g s va op
  | .other f => (0, { f s with tlb := s.tlb }, g)
  | .tlbwi => (0, Iss.tlbwi g s)
  | .tlbwr => (0, Iss.tlbwr g s)
  | .issApplyTlbWrite idx ehi elo0 elo1 pm => (0, Iss.issApplyTlbWrite g s idx ehi elo0 elo1 pm)

/-- The physical address and the state after each event. -/
def tlbTrace (noUtlb : Bool) (g : MicroTlb) (s : State) : List TlbEvent →
    List (BitVec 32 × State)
  | [] => []
  | e :: es =>
    let r := tlbStep noUtlb g s e
    (r.1, r.2.1) :: tlbTrace noUtlb r.2.2 r.2.1 es

theorem coldUtlb_agrees (tlb : Fin numTlbEntries → TlbEntry) : MicroTlb.Agrees coldUtlb tlb :=
  utlbFlush_agrees coldUtlb tlb

/-- One event with the micro-TLB gives what it gives without, and leaves the micro-TLB in
agreement with the TLB: what writes the TLB flushes the micro-TLB. -/
theorem tlbStep_transparent {g : MicroTlb} {s : State} (hg : MicroTlb.Agrees g s.tlb)
    (g' : MicroTlb) (e : TlbEvent) :
    (tlbStep false g s e).1 = (tlbStep true g' s e).1 ∧
      (tlbStep false g s e).2.1 = (tlbStep true g' s e).2.1 ∧
      MicroTlb.Agrees (tlbStep false g s e).2.2 (tlbStep false g s e).2.1.tlb := by
  cases e with
  | translate va op => exact vaTranslate_transparent hg g' va op
  | other f => exact ⟨rfl, rfl, hg⟩
  | tlbwi => exact ⟨rfl, rfl, utlbFlush_agrees g _⟩
  | tlbwr => exact ⟨rfl, rfl, utlbFlush_agrees g _⟩
  | issApplyTlbWrite idx ehi elo0 elo1 pm =>
    dsimp only [tlbStep, Iss.issApplyTlbWrite]
    split
    · exact ⟨rfl, rfl, utlbFlush_agrees g _⟩
    · exact ⟨rfl, rfl, hg⟩

theorem tlbTrace_eq {g : MicroTlb} {s : State} (hg : MicroTlb.Agrees g s.tlb) (g' : MicroTlb)
    (es : List TlbEvent) : tlbTrace false g s es = tlbTrace true g' s es := by
  induction es generalizing g g' s with
  | nil => rfl
  | cons e es ih =>
    obtain ⟨hpa, hs, hagree⟩ := tlbStep_transparent hg g' e
    have hrest := ih hagree (tlbStep true g' s e).2.2
    show (_, _) :: tlbTrace false _ _ es = (_, _) :: tlbTrace true _ _ es
    rw [hrest, hpa, hs]

/-- The micro-TLB is transparent: whatever the contents of the TLB and whatever happens,
with the interpreter or with the mirror as the writer of the TLB, every translation gives
the same address, raises the same exception and leaves the same state with the micro-TLB
as with every lookup going to the TLB. -/
theorem utlb_transparent (s : State) (es : List TlbEvent) :
    tlbTrace false coldUtlb s es = tlbTrace true coldUtlb s es :=
  tlbTrace_eq (coldUtlb_agrees s.tlb) coldUtlb es

end Iss

end R9999
