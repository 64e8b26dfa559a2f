import R9999.Mmu.Registers

/-!
# Lookups

The interpreter finds the entry that the RTL finds, for an access and for TLBP, and the
access then comes to the same physical address or the same exception.
-/

namespace R9999

namespace Mmu

open Iss (State Cpr0 TlbEntry TlbOp MicroTlb numTlbEntries sext32 srErl)

variable {s : State} {t : Rtl}

/-! ## The search -/

/-- An entry is for the current ASID, or for all, in both or in neither. -/
theorem Matches.asid_match (h : Matches s t) (e : TlbEntry) :
    (e.isGlobal || (s.cpr0_64 Cpr0.entryHi &&& 0xff) == (e.entryHi &&& 0xff)) =
      (TlbStored.of e).addrSpaceMatch t.regs.entryhiAsid := by
  have hasid : ((s.cpr0_64 Cpr0.entryHi &&& 0xff) == (e.entryHi &&& 0xff)) =
      ((TlbStored.of e).asid == t.regs.entryhiAsid) := by
    rw [Bool.eq_iff_iff, beq_iff_eq, beq_iff_eq, asid_eq, asid_eq, setWidth_inj (by decide),
      h.recording.asid]
    exact eq_comm
  rw [hasid, Bool.or_comm]
  rfl

/-- An entry matches in the interpreter if its fields match in the RTL. -/
theorem Matches.hits_eq (h : Matches s t) (va : BitVec 64) (i : Fin numTlbEntries) :
    (s.tlb i).hits va (s.cpr0_64 Cpr0.entryHi &&& 0xff) =
      ((t.tlb i).addrSpaceMatch t.regs.entryhiAsid && (t.tlb i).hit8k va) := by
  unfold TlbEntry.hits
  dsimp only
  rw [h.asid_match, h.tlb i, hit8k_of, Bool.and_comm]

/-- The address and the ASID of an entry that was never written. -/
def BlankKey (va : BitVec 64) (asid : BitVec 8) : Prop :=
  va.extractLsb' 62 2 = 0 ∧ va.extractLsb' 13 27 = 0 ∧ asid = 0

instance (va : BitVec 64) (asid : BitVec 8) : Decidable (BlankKey va asid) :=
  inferInstanceAs (Decidable (_ ∧ _))

theorem blank_hits_iff (va : BitVec 64) (asid : BitVec 8) :
    ((TlbStored.of {}).addrSpaceMatch asid && (TlbStored.of {}).hit8k va) = true ↔
      BlankKey va asid := by
  have hmask : (BitVec.allOnes 15 ++ ~~~(TlbStored.of {}).pagemask : BitVec 27) =
      BitVec.allOnes 27 := by decide
  have hvpn : (TlbStored.of {}).vpn = 0#27 := by decide
  have hr : (TlbStored.of {}).r = 0#2 := by decide
  have hasid : (TlbStored.of {}).asid = 0#8 := by decide
  have hg : ((TlbStored.of {}).page0.g && (TlbStored.of {}).page1.g) = false := by decide
  rw [TlbStored.addrSpaceMatch, TlbStored.hit8k, hmask, hvpn, hr, hasid, hg,
    BitVec.and_allOnes, BitVec.zero_xor]
  rw [Bool.or_false, Bool.and_eq_true, Bool.and_eq_true, beq_iff_eq, beq_iff_eq, beq_iff_eq]
  constructor
  · rintro ⟨hasid, hvpn, hr⟩
    exact ⟨hr.symm, hvpn, hasid.symm⟩
  · rintro ⟨hr, hvpn, hasid⟩
    exact ⟨hasid.symm, hvpn, hr.symm⟩

/-- A slot that was never written matches nothing in the interpreter but the key of a blank
entry. -/
theorem Matches.blank_miss (h : Matches s t) {va : BitVec 64}
    (hkey : ¬ BlankKey va t.regs.entryhiAsid) {i : Fin numTlbEntries}
    (hi : t.written i = false) :
    (s.tlb i).hits va (s.cpr0_64 Cpr0.entryHi &&& 0xff) = false := by
  rw [h.hits_eq, h.tlb i, h.blank i hi, Bool.eq_false_iff, ne_eq, blank_hits_iff]
  exact hkey

/-- Both find the same entry. -/
theorem Matches.search_eq (h : Matches s t) {va : BitVec 64}
    (hkey : (∃ i, t.written i = false) → ¬ BlankKey va t.regs.entryhiAsid) :
    Iss.tlbSearch s.tlb va (s.cpr0_64 Cpr0.entryHi &&& 0xff) = (t.search va).map s.tlb := by
  have hhits : (fun i => (s.tlb i).hits va (s.cpr0_64 Cpr0.entryHi &&& 0xff)) = t.hits va := by
    funext i
    cases hi : t.written i with
    | true => rw [h.hits_eq, Rtl.hits, hi, Bool.and_true]
    | false => rw [h.blank_miss (hkey ⟨i, hi⟩) hi, Rtl.hits, hi, Bool.and_false]
  rw [Iss.tlbSearch, List.find?_map, Rtl.search, ← hhits]
  rfl

/-! ## TLBP -/

/-- Nothing in the entry is compared by TLBP in the interpreter alone: the bits of EntryHi
between the page number and the region are the same, and the mask has no bits above the
implemented ones. -/
def ProbeOk (e : TlbEntry) (entryHi : BitVec 64) : Prop :=
  e.pageMask.extractLsb' 25 7 = 0 ∧ e.entryHi.extractLsb' 40 22 = entryHi.extractLsb' 40 22

instance (e : TlbEntry) (entryHi : BitVec 64) : Decidable (ProbeOk e entryHi) :=
  inferInstanceAs (Decidable (_ ∧ _))

/-- The bits that TLBP compares in the interpreter. -/
theorem getLsbD_probeMask (pageMask : BitVec 32) {i : Nat} (hi : i < 64) :
    (~~~((pageMask ||| 0x1fff).setWidth 64 : BitVec 64)).getLsbD i =
      (!pageMask.getLsbD i && decide (13 ≤ i)) := by
  have hpage : (0x1fff : BitVec 32) = BitVec.ofNat 32 (2 ^ 13 - 1) := by decide
  rw [BitVec.getLsbD_not, BitVec.getLsbD_setWidth, BitVec.getLsbD_or, hpage,
    BitVec.getLsbD_ofNat, Nat.testBit_two_pow_sub_one]
  by_cases h13 : i < 13
  · have h32 : i < 32 := by omega
    have hge : ¬ 13 ≤ i := by omega
    simp [h13, hge, h32]
  · have hge : 13 ≤ i := by omega
    simp [hi, h13, hge]

theorem probe_match {e : TlbEntry} {entryHi : BitVec 64} (hok : ProbeOk e entryHi) :
    (entryHi &&& ~~~((e.pageMask ||| 0x1fff).setWidth 64 : BitVec 64) ==
        e.entryHi &&& ~~~((e.pageMask ||| 0x1fff).setWidth 64 : BitVec 64)) =
      (TlbStored.of e).hit8k entryHi := by
  obtain ⟨hmask, htop⟩ := hok
  have hhigh (i : Nat) (h25 : 25 ≤ i) : e.pageMask.getLsbD i = false := by
    by_cases h32 : i < 32
    · have hbit := congrArg (BitVec.getLsbD · (i - 25)) hmask
      have hadd : 25 + (i - 25) = i := by omega
      have h7 : i - 25 < 7 := by omega
      simpa [hadd, h7] using hbit
    · exact BitVec.getLsbD_of_ge _ _ (by omega)
  rw [Bool.eq_iff_iff]
  simp only [TlbStored.hit8k, Bool.and_eq_true, beq_iff_eq, vpnMatch_of, and_eq_and_iff]
  constructor
  · intro h
    constructor
    · intro i hi hbit
      refine h i hi ?_
      rw [getLsbD_vpnMask] at hbit
      rw [getLsbD_probeMask _ hi]
      rcases Nat.lt_or_ge i 25 with h25 | h25
      · simp only [h25, decide_true, Bool.true_and, Bool.and_eq_true, decide_eq_true_eq] at hbit
        simp [hbit.1.1, hbit.2]
      · have h13 : 13 ≤ i := by omega
        simp [hhigh i h25, h13]
    · apply BitVec.eq_of_getLsbD_eq
      intro i hi
      have h64 : 62 + i < 64 := by omega
      have h13 : 13 ≤ 62 + i := by omega
      have hbit := h (62 + i) h64 (by
        rw [getLsbD_probeMask _ h64, hhigh _ (by omega)]
        simp [h13])
      simpa [TlbStored.of, hi] using hbit.symm
  · rintro ⟨hvpn, hr⟩ i hi hbit
    rw [getLsbD_probeMask _ hi] at hbit
    rcases Nat.lt_or_ge i 40 with h40 | h40
    · refine hvpn i hi ?_
      rw [getLsbD_vpnMask]
      simp only [Bool.and_eq_true, decide_eq_true_eq, Bool.not_eq_true'] at hbit
      simp [h40, hbit.1, hbit.2]
    rcases Nat.lt_or_ge i 62 with h62 | h62
    · have htopBit := congrArg (BitVec.getLsbD · (i - 40)) htop
      have hadd : 40 + (i - 40) = i := by omega
      have h22 : i - 40 < 22 := by omega
      simpa [hadd, h22] using htopBit.symm
    · have hrBit := congrArg (BitVec.getLsbD · (i - 62)) hr
      have hadd : 62 + (i - 62) = i := by omega
      have h2 : i - 62 < 2 := by omega
      simpa [TlbStored.of, hadd, h2] using hrBit.symm

/-- An entry compares the page number and the region of an address alone. -/
theorem hit8k_congr (e : TlbStored) {va va' : BitVec 64}
    (hvpn : va.extractLsb' 13 27 = va'.extractLsb' 13 27)
    (hr : va.extractLsb' 62 2 = va'.extractLsb' 62 2) : e.hit8k va = e.hit8k va' := by
  rw [TlbStored.hit8k, TlbStored.hit8k, hvpn, hr]

theorem probeVa_vpn (r : TlbRegs) : r.probeVa.extractLsb' 13 27 = r.entryhiVpn2 := by
  rw [TlbRegs.probeVa, BitVec.extractLsb'_append_eq_of_le (by decide)]
  exact BitVec.extractLsb'_append_eq_right

theorem probeVa_r (r : TlbRegs) : r.probeVa.extractLsb' 62 2 = r.entryhiR := by
  rw [TlbRegs.probeVa, BitVec.extractLsb'_append_eq_of_le (by decide),
    BitVec.extractLsb'_append_eq_of_le (by decide)]
  exact BitVec.extractLsb'_append_eq_left

/-- Whatever TLBP could find has been written, and holds nothing that TLBP compares in the
interpreter alone. -/
def ProbesOk (s : State) (t : Rtl) : Prop :=
  ∀ i, (s.tlb i).probeHits (s.cpr0_64 Cpr0.entryHi) = true ∨ t.hits t.regs.probeVa i = true →
    t.written i = true ∧ ProbeOk (s.tlb i) (s.cpr0_64 Cpr0.entryHi)

instance (s : State) (t : Rtl) : Decidable (ProbesOk s t) :=
  Nat.decidableForallFin _

theorem Matches.probeHits_eq (h : Matches s t) (hok : ProbesOk s t) (i : Fin numTlbEntries) :
    (s.tlb i).probeHits (s.cpr0_64 Cpr0.entryHi) = t.hits t.regs.probeVa i := by
  by_cases hfound : (s.tlb i).probeHits (s.cpr0_64 Cpr0.entryHi) = true ∨
      t.hits t.regs.probeVa i = true
  · obtain ⟨hwritten, hentry⟩ := hok i hfound
    have hvpn : t.regs.probeVa.extractLsb' 13 27 =
        (s.cpr0_64 Cpr0.entryHi).extractLsb' 13 27 :=
      (probeVa_vpn t.regs).trans (congrArg TlbStored.vpn h.staged)
    have hr : t.regs.probeVa.extractLsb' 62 2 = (s.cpr0_64 Cpr0.entryHi).extractLsb' 62 2 :=
      (probeVa_r t.regs).trans (congrArg TlbStored.r h.staged)
    unfold TlbEntry.probeHits
    dsimp only
    rw [h.asid_match, probe_match hentry, Rtl.hits, hwritten, h.tlb i, hit8k_congr _ hvpn hr,
      Bool.and_true, Bool.and_comm]
  · rw [not_or, Bool.not_eq_true, Bool.not_eq_true] at hfound
    rw [hfound.1, hfound.2]

/-- TLBP finds the same index in both, or fails in both. -/
theorem Matches.tlbp (h : Matches s t) (hok : ProbesOk s t) :
    Matches (Iss.tlbp s) t.tlbp ∧ (Iss.tlbp s).cpr0 Cpr0.index = t.tlbp.regs.indexValue := by
  have hfound : ((List.finRange numTlbEntries).find?
      fun k => (s.tlb k).probeHits (s.cpr0_64 Cpr0.entryHi)) = t.search t.regs.probeVa := by
    rw [funext (h.probeHits_eq hok)]
    rfl
  have hset (v : BitVec 32) (index : BitVec 6) (failed : Bool) (hv : index = v.setWidth 6) :
      Matches (s.setCpr0 Cpr0.index v)
        { t with regs := { t.regs with index, probeFailed := failed } } :=
    ⟨h.mirror, h.tlb, h.blank, h.staged, hv,
      ⟨h.recording.asid, h.recording.context, h.recording.xcontext⟩⟩
  unfold Iss.tlbp Rtl.tlbp
  dsimp only
  rw [hfound]
  cases hfind : t.search t.regs.probeVa with
  | none =>
    refine ⟨hset 0x80000000 0 true (by decide), ?_⟩
    show (0x80000000 : BitVec 32) = BitVec.ofBool true ++ (0 : BitVec 25) ++ (0 : BitVec 6)
    decide
  | some k =>
    have hindex : ∀ k : Fin numTlbEntries,
        BitVec.ofNat 6 k.val = (BitVec.ofNat 32 k.val).setWidth 6 ∧ BitVec.ofNat 32 k.val =
          BitVec.ofBool false ++ (0 : BitVec 25) ++ BitVec.ofNat 6 k.val := by decide
    exact ⟨hset _ _ false (hindex k).1, (hindex k).2⟩

/-! ## Accesses -/

/-- A TLB exception leaves the two with the same entries and the same registers. -/
theorem Matches.raiseTlb (h : Matches s t) (va : BitVec 64) (code : BitVec 32)
    (refill xtlb : Bool) :
    Matches (Iss.raiseTlb s va code refill xtlb) { t with regs := t.regs.saveFault va } := by
  obtain ⟨hmirror, hindex, hmask⟩ := setExcPc_keeps (Iss.tlbSetFaultState s va)
  have hlo (r : Cpr0) (hr : r ≠ Cpr0.epc) := raiseTlb_cpr0_64 s va code refill xtlb hr
  refine ⟨hmirror.trans h.mirror, ?_, ?_, ?_, ?_, h.recording.raiseTlb s va code refill xtlb⟩
  · intro i
    rw [Iss.raiseTlb_tlb]
    exact h.tlb i
  · intro i hi
    rw [Iss.raiseTlb_tlb]
    exact h.blank i hi
  · have hstaged : (Iss.raiseTlb s va code refill xtlb).staged =
        { s.staged with entryHi := (t.regs.saveFault va).entryHi } := by
      unfold State.staged
      rw [hlo _ (by decide), hlo _ (by decide), hlo _ (by decide),
        tlbSetFaultState_entryHi s va h.recording]
      show TlbEntry.mk _ _ _ _ = TlbEntry.mk _ _ _ _
      rw [show (Iss.raiseTlb s va code refill xtlb).cpr0 Cpr0.pageMask = s.cpr0 Cpr0.pageMask
        from hmask]
      rfl
    rw [hstaged]
    show ({ t.regs.staged with r := va.extractLsb' 62 2, vpn := va.extractLsb' 13 27 } :
        TlbStored) =
      { TlbStored.of s.staged with
        asid := (t.regs.saveFault va).entryHi.setWidth 8
        r := (t.regs.saveFault va).entryHi.extractLsb' 62 2
        vpn := (t.regs.saveFault va).entryHi.extractLsb' 13 27 }
    rw [entryHi_asid, entryHi_vpn, entryHi_r, h.staged]
    show _ = TlbStored.mk _ t.regs.entryhiAsid _ _ _ _
    rw [h.recording.asid]
    rfl
  · rw [show (Iss.raiseTlb s va code refill xtlb).cpr0 Cpr0.index = s.cpr0 Cpr0.index
      from hindex]
    exact h.index

/-- A lookup that both make alike: the address of a fetch has the form of its mode, no slot
that was never written has the key of a blank entry, and what the RTL matches has one of
the page sizes, with the frames of its valid pages aligned to it. -/
def LookupOk (s : State) (t : Rtl) (vAddr va : BitVec 64) (op : TlbOp) : Prop :=
  (op = .fetch → va = vAddr) ∧
    ((∃ i, t.written i = false) → ¬ BlankKey va t.regs.entryhiAsid) ∧
      ∀ i, t.hits va i = true →
        HasSize (s.tlb i) ∧ (((s.tlb i).lo va).getLsbD 1 = true → Aligned (s.tlb i) va)

instance (s : State) (t : Rtl) (vAddr va : BitVec 64) (op : TlbOp) :
    Decidable (LookupOk s t vAddr va op) :=
  inferInstanceAs (Decidable (_ ∧ _ ∧ _))

/-- An access that both make alike. -/
def AccessOk (s : State) (t : Rtl) (sr : BitVec 32) (vAddr : BitVec 64) (op : TlbOp) : Prop :=
  let va := effective sr vAddr
  ¬ ErlUnmaps sr (srHas sr srErl && op != .fetch) va ∧ ¬ LowKseg sr va ∧
    (Iss.unmapped va = none → LookupOk s t vAddr va op)

instance (s : State) (t : Rtl) (sr : BitVec 32) (vAddr : BitVec 64) (op : TlbOp) :
    Decidable (AccessOk s t sr vAddr op) :=
  inferInstanceAs (Decidable (_ ∧ _ ∧ (_ → _)))

/-- What an access comes to in the interpreter: a physical address, unless an exception was
raised. -/
def outcome (pa : BitVec 32) (s : State) : Access :=
  if s.tlbFault then .fault (faultOf s) else .pa (pa.setWidth 30)

/-- The exceptions of an access are the same in both. -/
theorem Matches.raise_agrees (h : Matches s t) (va : BitVec 64) (code : BitVec 5)
    (refill : Bool) (pa : BitVec 32) :
    outcome pa (Iss.raiseTlb s va (code.setWidth 32) refill (Iss.is64bAddrMode s)) =
        (t.raise (s.cpr0 Cpr0.sr) va code refill).1 ∧
      Matches (Iss.raiseTlb s va (code.setWidth 32) refill (Iss.is64bAddrMode s))
        (t.raise (s.cpr0 Cpr0.sr) va code refill).2 := by
  refine ⟨?_, h.raiseTlb va _ refill _⟩
  show Access.fault (faultOf _) = Access.fault _
  rw [is64bAddrMode_eq, faultOf_raiseTlb s va h.recording]
  rfl

theorem Rtl.hits_of_search {va : BitVec 64} {i : Fin numTlbEntries}
    (h : t.search va = some i) : t.hits va i = true :=
  List.find?_some h

/-- The lookup of a mapped address comes to the same in both. -/
theorem Matches.lookup_agrees (h : Matches s t) (hfault : s.tlbFault = false)
    (g : MicroTlb) {vAddr va : BitVec 64} {op : TlbOp} (hok : LookupOk s t vAddr va op) :
    outcome (Iss.camTranslate g s va op).1 (Iss.camTranslate g s va op).2.1 =
        (t.lookup (s.cpr0 Cpr0.sr) va va op).1 ∧
      Matches (Iss.camTranslate g s va op).2.1 (t.lookup (s.cpr0 Cpr0.sr) va va op).2 := by
  obtain ⟨-, hkey, hentry⟩ := hok
  have hcode : (if op = .store then (3 : BitVec 32) else 2) =
      (if op = .store then (3 : BitVec 5) else 2).setWidth 32 := by
    split <;> rfl
  unfold Iss.camTranslate Rtl.lookup
  dsimp only
  rw [h.search_eq hkey, hcode]
  cases hfind : t.search va with
  | none => exact h.raise_agrees va _ true 0
  | some i =>
    obtain ⟨hsize, halign⟩ := hentry i (Rtl.hits_of_search hfind)
    have hpage : (t.tlb i).page va = .stored ((s.tlb i).lo va) := by
      rw [h.tlb i, page_of_size hsize]
    dsimp only [Option.map_some]
    rw [hpage]
    by_cases hv : ((s.tlb i).lo va).getLsbD 1 = false
    · have hv' : (EntryLo.stored ((s.tlb i).lo va)).v = false := hv
      rw [if_pos hv, if_pos hv']
      exact h.raise_agrees va _ false 0
    have hv' : ¬ (EntryLo.stored ((s.tlb i).lo va)).v = false := hv
    rw [if_neg hv, if_neg hv']
    by_cases hd : op = .store ∧ ((s.tlb i).lo va).getLsbD 2 = false
    · have hd' : op = .store ∧ (EntryLo.stored ((s.tlb i).lo va)).d = false := hd
      rw [if_pos hd, if_pos hd']
      exact h.raise_agrees va 1 false 0
    have hd' : ¬ (op = .store ∧ (EntryLo.stored ((s.tlb i).lo va)).d = false) := hd
    rw [if_neg hd, if_neg hd']
    refine ⟨?_, h⟩
    show outcome (((s.tlb i).pa va).setWidth 32) s = _
    rw [outcome, hfault, h.tlb i, pa_of_size hsize (halign (by simpa using hv))]
    rfl

/-- The interpreter's state for an access under a Status word. -/
def underStatus (s : State) (sr : BitVec 32) : State :=
  { s.setCpr0 Cpr0.sr sr with tlbFault := false }

/-- An access without a privilege or range error comes to the same in both. -/
theorem Matches.access_agrees (h : Matches s t) (g : MicroTlb) {sr : BitVec 32}
    {vAddr : BitVec 64} {op : TlbOp}
    (hperm : (mipsseg sr (srHas sr srErl && op != .fetch) vAddr).badPerms = false)
    (hok : AccessOk s t sr vAddr op) :
    outcome (Iss.vaTranslate true g (underStatus s sr) vAddr op).1
        (Iss.vaTranslate true g (underStatus s sr) vAddr op).2.1 = (t.access sr vAddr op).1 ∧
      Matches (Iss.vaTranslate true g (underStatus s sr) vAddr op).2.1
        (t.access sr vAddr op).2 := by
  obtain ⟨herl, hlow, hlookup⟩ := hok
  have hdecoded := decoded_segment (effective_form sr vAddr) herl hlow
  have heff : (if Iss.is64bAddrMode (underStatus s sr) = true then vAddr
      else sext32 (vAddr.setWidth 32)) = effective sr vAddr := rfl
  unfold Iss.vaTranslate Rtl.access
  dsimp only
  rw [heff, hperm, if_neg Bool.false_ne_true]
  generalize hva : effective sr vAddr = va at *
  have hlAddr : (mipsseg sr (srHas sr srErl && op != .fetch) vAddr).lAddr =
      (segment sr (srHas sr srErl && op != .fetch) va).lAddr := by
    rw [← hva]
    rfl
  have hmapped : (mipsseg sr (srHas sr srErl && op != .fetch) vAddr).mapped =
      (segment sr (srHas sr srErl && op != .fetch) va).mapped := by
    rw [← hva]
    rfl
  rw [hlAddr, hmapped]
  -- the note of a load's address is not read
  obtain ⟨s', hs', htlb, hmatch, hfault, hsr⟩ :
      ∃ s', (if op = .load then { underStatus s sr with lastLdVa := va }
        else underStatus s sr) = s' ∧ s'.tlb = s.tlb ∧ Matches s' t ∧ s'.tlbFault = false ∧
          s'.cpr0 Cpr0.sr = sr := by
    by_cases hop : op = .load
    · exact ⟨_, if_pos hop, rfl, h.congr rfl rfl rfl rfl rfl, rfl, rfl⟩
    · exact ⟨_, if_neg hop, rfl, h.congr rfl rfl rfl rfl rfl, rfl, rfl⟩
  rw [hs']
  unfold Decoded at hdecoded
  cases hun : Iss.unmapped va with
  | some pa =>
    rw [hun] at hdecoded
    obtain ⟨hmap, hpa⟩ := hdecoded
    rw [if_pos hmap]
    refine ⟨?_, hmatch⟩
    show outcome pa s' = _
    rw [outcome, hfault, ← hpa]
    rfl
  | none =>
    rw [hun] at hdecoded
    obtain ⟨hmap, haddr⟩ := hdecoded
    have hok : LookupOk s' t vAddr va op := by
      rw [LookupOk, htlb]
      exact hlookup hun
    have hrecord : (if op = .fetch then vAddr else va) = va := by
      split_ifs with hop
      · exact (hok.1 hop).symm
      · rfl
    have hagree := hmatch.lookup_agrees hfault g hok
    rw [hsr] at hagree
    dsimp only
    rw [if_neg (by simp), hmap, if_neg (by decide), haddr, hrecord]
    exact hagree

end Mmu

end R9999
