import R9999.Core.TlbRefine

/-!
# The TLB instructions

A probe that is not behind an operation that uses the TLB finds what the unit of the program
finds: its address was taken from EntryHi as it still is, and no entry has been written since.
With the balance of the cycles this gives the law of all runs: what is done to the TLB is what
the program does, once and in its order.
-/

namespace R9999

namespace Core

open Iss (numTlbEntries)
open Mmu (TlbRegs TlbStored TlbEvent TlbUnit Rtl Dtlb Jtlb matchIdx update_slot)

/-! ## Probes -/

/-- What a probe is to find. -/
def found (s : TlbState) : Bool × BitVec 6 :=
  let m := (Rtl.mk s.regs s.shadow s.dtlb.written).search s.regs.probeVa
  (m.isSome, matchIdx m)

/-- The probe `k` places from the head has the address that EntryHi still has, and has found what
is to be found. -/
structure ProbeHeld (p : Params) (s : TlbState) (k : Nat) (e : Entry) : Prop where
  va : ∀ va, s.probeVa (robSlot p s.cp0 k) = some va → wrData s 10 = none ∧ va = s.regs.probeVa
  found : ∀ a, s.probed (robSlot p s.cp0 k) = some a → wrData s 10 = none ∧ a = found s
  done : e.complete = true → s.probed (robSlot p s.cp0 k) = some (e.tlbHit, e.tlbIndex)

/-- No operation that uses the TLB is in front. -/
def Clear (s : State) (k : Nat) : Prop :=
  ∀ (j : Nat) (f : Entry), j < k → s.rob[j]? = some f → f.uop.op.usesTlb = false

def Probes (p : Params) (s : TlbState) : Prop :=
  ∀ k e, s.cp0.core.rob[k]? = some e → e.uop.op = .tlbp → s.cp0.core.regs.dsDone = false →
    Clear s.cp0.core k → ProbeHeld p s k e

namespace Entry

variable {s : State} {j : Input} {k : Nat} {e : Entry}

/-- A probe is completed by the memory pipe, with its answer. -/
theorem probe_next (hop : e.uop.op = .tlbp) (hn : (e.next s j k).complete = true) :
    e.complete = true ∧ (e.next s j k).tlbHit = e.tlbHit ∧
        (e.next s j k).tlbIndex = e.tlbIndex ∨
      ∃ r, j.memDone = some (k, r) ∧ (e.next s j k).tlbHit = r.tlbHit ∧
        (e.next s j k).tlbIndex = r.tlbIndex := by
  have hmem := e.uop.ok.probe hop
  have hint : e.uop.isInt = false := by
    by_contra hint
    simp [(e.uop.ok.pipeInt (by simpa using hint)).1] at hmem
  have hfp := e.uop.ok.pipeMem hmem
  have h1 : applyAt Entry.intDone k j.intDone e = e := by
    unfold applyAt
    split
    · rfl
    · simp [Entry.intDone, hint]
  have h2 : applyAt Entry.fpDone k j.fpDone e = e := by
    unfold applyAt
    split
    · rfl
    · simp [Entry.fpDone, hfp]
  have hsd (f : Entry) : f.sdDone.complete = f.complete ∧ f.sdDone.tlbHit = f.tlbHit ∧
      f.sdDone.tlbIndex = f.tlbIndex := ⟨rfl, rfl, rfl⟩
  have hstart (f : Entry) (a : BitVec 64) : (f.start a).complete = f.complete ∧
      (f.start a).tlbHit = f.tlbHit ∧ (f.start a).tlbIndex = f.tlbIndex := ⟨rfl, rfl, rfl⟩
  obtain ⟨hc, hh, hi⟩ : (e.next s j k).complete = (applyAt Entry.memDone k j.memDone e).complete ∧
      (e.next s j k).tlbHit = (applyAt Entry.memDone k j.memDone e).tlbHit ∧
      (e.next s j k).tlbIndex = (applyAt Entry.memDone k j.memDone e).tlbIndex := by
    simp only [Entry.next, h1, h2]
    split <;> split <;> simp [hsd, hstart]
  rw [hc] at hn
  rw [hh, hi]
  by_cases hcomp : e.complete = true
  · have hsame : applyAt Entry.memDone k j.memDone e = e := by
      unfold applyAt
      split
      · rfl
      · simp [Entry.memDone, hcomp]
    exact .inl ⟨hcomp, by rw [hsame], by rw [hsame]⟩
  · unfold applyAt at hn ⊢
    split at hn
    · exact absurd hn hcomp
    next l r hr =>
      split at hn
      next hlk =>
        subst hlk
        refine .inr ⟨r, hr, ?_⟩
        simp [Entry.memDone, hmem, hcomp, memResult, hop]
      next => exact absurd hn hcomp

end Entry

section Step

variable {p : Params} {s : TlbState} {i : TlbInput} {k : Nat} {e : Entry}

/-- A probe waits beside no operation that uses the TLB, but for those in front of it. -/
theorem probe_seat (he : s.cp0.core.rob[k]? = some e) (hop : e.uop.op = .tlbp)
    (hclear : Clear s.cp0.core k) {j : Nat} {f : Entry} (hf : s.cp0.core.rob[j]? = some f)
    (hu : f.uop.op.usesTlb = true) (hseat : TlbSeat s.cp0.core j) : False := by
  have hle : k ≤ j := by
    by_contra hlt
    simp [hclear j f (by omega) hf] at hu
  have hne : k ≠ j := by
    rintro rfl
    obtain rfl := Option.some.inj (he.symm.trans hf)
    simp [hop, Op.usesTlb] at hu
  cases hseat with
  | head hj => omega
  | drain hj => omega
  | slot b hj hb hmis =>
    obtain rfl : k = 0 := by omega
    obtain rfl := Option.some.inj (he.symm.trans hb)
    have := (e.uop.ok.branch hmis.slot).2
    simp [hop, Op.jumps] at this

/-- So none is under way, nor executed. -/
theorem probe_idle (h : TlbPlaced p s.cp0) (hno : strayTlbOp s.cp0.core (feed p s i) = false)
    (he : s.cp0.core.rob[k]? = some e) (hop : e.uop.op = .tlbp)
    (hclear : Clear s.cp0.core k) :
    underway s.cp0.core = none ∧ ∀ k e, starting s.cp0.core (feed p s i) = some (k, e) →
      e.uop.op.usesTlb = false := by
  constructor
  · refine underway_none ?_
    intro j f hf hu
    by_contra hi
    exact probe_seat he hop hclear hf hu (h.executed j f hf hu (by simpa using hi)).2.2
  · intro j f hst
    by_contra hu
    rw [Bool.not_eq_false] at hu
    obtain ⟨-, hf, -⟩ := starting_eq_some.mp hst
    exact probe_seat he hop hclear hf hu (seat_start hno hst hu)

/-- EntryHi stays unless it is written. -/
theorem entryHi_kept (ht : s.tlbr = false) (hs : s.cp0.core.regs.saveToTlbRegs = false)
    (hw : wrData s 10 = none) :
    (regsNext p s i).entryhiAsid = s.regs.entryhiAsid ∧
      (regsNext p s i).probeVa = s.regs.probeVa := by
  have hw' : wrData s 10#5 = none := hw
  simp [regsNext, ht, hs, hw', TlbRegs.probeVa]

/-- The search for a probe depends on EntryHi and the entries alone. -/
theorem search_congr {t u : Rtl} (hasid : u.regs.entryhiAsid = t.regs.entryhiAsid)
    (hva : u.regs.probeVa = t.regs.probeVa) (htlb : u.tlb = t.tlb)
    (hwr : u.written = t.written) :
    u.search u.regs.probeVa = t.search t.regs.probeVa := by
  unfold Rtl.search Rtl.hits
  rw [hasid, hva, htlb, hwr]

theorem found_congr {s' : TlbState} (hasid : s'.regs.entryhiAsid = s.regs.entryhiAsid)
    (hva : s'.regs.probeVa = s.regs.probeVa) (hsh : s'.shadow = s.shadow)
    (hwr : s'.dtlb.written = s.dtlb.written) : found s' = found s := by
  have hsearch := search_congr (t := ⟨s.regs, s.shadow, s.dtlb.written⟩)
    (u := ⟨s'.regs, s'.shadow, s'.dtlb.written⟩) hasid hva hsh hwr
  exact congrArg (fun m => (m.isSome, matchIdx m)) hsearch

/-- A CP0 write of EntryHi has no probe behind it. -/
theorem commit_entryHi (h : TlbPlaced p s.cp0) (he : s.cp0.core.rob[k]? = some e)
    (hop : e.uop.op = .tlbp) : wrData (tlbNext p s i) 10 = none := by
  by_contra hw
  have hturn := retires_cases (i := cp0In p s i) h
  have hcommits : commits (cp0Next p s.cp0 (cp0In p s i)) =
      (cp0Wr (tlbNext p s i)).toList.map Cp0Write.move := commits_eq (s := tlbNext p s i)
  have hsome : ∃ w, cp0Wr (tlbNext p s i) = some w ∧ w.reg = 10 := by
    cases hcw : cp0Wr (tlbNext p s i) with
    | none => exact absurd (wrData_none hcw 10) hw
    | some w =>
      rw [wrData_some hcw] at hw
      refine ⟨w, rfl, ?_⟩
      by_contra hne
      exact hw (if_neg hne)
  obtain ⟨w, hcw, hreg⟩ := hsome
  rw [hcw] at hcommits
  cases hturn with
  | none _ _ hc => simp [hc] at hcommits
  | use _ _ _ _ _ _ _ _ hc => simp [hc] at hcommits
  | probe _ _ _ _ _ _ _ hc => simp [hc] at hcommits
  | move b bs hrob hd hm _ _ hc =>
    obtain rfl : b.staged = w := by simpa [hc] using hcommits
    have hwr : b.uop.op.isCp0Wr = true := moves_isCp0Wr hm
    have hne : b.uop.op ≠ .tlbr ∧ b.uop.op ≠ .tlbp := by
      constructor <;> intro hop <;> simp [hop, Op.moves] at hm
    have hhi : b.cp0Write.entryHi = true := by
      simp [Entry.cp0Write, hne, Cp0Write.entryHi, hreg]
    have hlast := h.probes.last 0 b (by simp [hrob]) (entryHi_serial hwr hne.1 hhi)
    have hlt := (List.getElem?_eq_some_iff.mp he).1
    obtain rfl : k = 0 := by omega
    obtain rfl : b = e := by simpa [hrob] using he
    exact hne.2 hop

/-- A probe that stays alive was alive, and nothing but the registers it does not read may have
changed. -/
theorem probe_alive (h : TlbPlaced p s.cp0)
    (hclr : (turn p s i).clrRob = false)
    (hds : (tlbNext p s i).cp0.core.regs.dsDone = false)
    (hclear : Clear (tlbNext p s i).cp0.core k) :
    s.cp0.core.regs.dsDone = false ∧ Clear s.cp0.core (leaving (turn p s i) + k) ∧
      s.cp0.core.regs.saveToTlbRegs = false := by
  refine ⟨?_, ?_, ?_⟩
  · by_contra hd
    have hkept : (tlbNext p s i).cp0.core.regs.dsDone = true :=
      dsDone_kept h.cp0.sane.fits h.probes.undone hclr (by simpa using hd)
    exact Bool.false_ne_true (hds.symm.trans hkept)
  · intro j f hj hf
    by_contra hu
    rw [Bool.not_eq_false] at hu
    -- one that leaves ends the life of what is behind it
    have hstay : leaving (turn p s i) ≤ j := by
      by_contra hlt
      have hd : (tlbNext p s i).cp0.core.regs.dsDone = true :=
        usesTlb_leaves h.cp0.sane.rob h.cp0.sane.fits h.cp0.sound h.cp0.trapping hf hu
          (fun hd => (usesTlb_done h (List.mem_of_getElem? hf) hu hd).2) (Nat.lt_of_not_le hlt)
      exact Bool.false_ne_true (hds.symm.trans hd)
    have hlt := (List.getElem?_eq_some_iff.mp hf).1
    have hnext : (tlbNext p s i).cp0.core.rob[j - leaving (turn p s i)]? =
        some (f.next s.cp0.core (feed p s i) j) := by
      change (next p s.cp0.core (feed p s i)).rob[_]? = _
      rw [rob_next hclr, List.getElem?_append_left (by
        simp only [List.length_drop, progress_length]
        exact Nat.sub_lt_sub_right hstay hlt), List.getElem?_drop]
      change (progress s.cp0.core (feed p s i))[leaving (turn p s i) +
        (j - leaving (turn p s i))]? = _
      rw [Nat.add_sub_cancel' hstay, progress_getElem?, hf]
      rfl
    have := hclear _ _ (by omega) hnext
    simp [hu] at this
  · by_contra hs
    rw [Bool.not_eq_false] at hs
    have hst := (h.saving hs).1
    have hd : (next p s.cp0.core (feed p s i)).regs.dsDone = true := by
      simp [next, comb, arm, hst, finish, writeEpc]
    exact Bool.false_ne_true (hds.symm.trans hd)

theorem probeVaNext_old (h : TlbPlaced p s.cp0) (hk : k < s.cp0.core.rob.length) :
    probeVaNext p s i (robSlot p s.cp0 k) =
      if probing s.cp0 (cp0In p s i) k then some (regsNext p s i).probeVa
      else s.probeVa (robSlot p s.cp0 k) := by
  have hfresh : fresh p s.cp0 (turn p s i) (robSlot p s.cp0 k) = false :=
    fresh_old h.cp0.sane h.cp0.short hk
  rw [probeVaNext, hfresh, any_slot h.cp0.short hk]
  rfl

/-- A probe that is looked up finds what is to be found. -/
theorem look_found (hcopy : ∀ j, s.dtlb.written j = true → s.dtlb.tlb j = s.shadow j)
    (hva : ∀ va, s.probeVa (robSlot p s.cp0 k) = some va →
      wrData s 10 = none ∧ va = s.regs.probeVa)
    (hlook : ((lookVa p s i).isSome && i.look.any fun j =>
      decide (robSlot p s.cp0 k = robSlot p s.cp0 j)) = true) :
    wrData s 10 = none ∧
      ((dtlbNext p s i).hit, (dtlbNext p s i).hitIndex) = found s := by
  simp only [Bool.and_eq_true, Option.any_eq_true, decide_eq_true_eq] at hlook
  obtain ⟨hsome, j, hj, hslot⟩ := hlook
  obtain ⟨va, hlv⟩ := Option.isSome_iff_exists.mp hsome
  have hprobe : s.probeVa (robSlot p s.cp0 k) = some va := by
    rw [hslot]
    simpa [lookVa, hj] using hlv
  obtain ⟨hw, rfl⟩ := hva va hprobe
  refine ⟨hw, ?_⟩
  have hin : dtlbIn p s i = ⟨s.regs.entryhiAsid, true, true, s.regs.probeVa⟩ := by
    rw [dtlbIn, hlv]
  obtain ⟨hhit, hidx⟩ := Mmu.dtlb_probe (d := s.dtlb)
    (t := ⟨s.regs, s.shadow, s.dtlb.written⟩) (fun _ => rfl) hcopy (tlbEntryOut s)
  rw [dtlbNext, hin, hhit, hidx]
  rfl

theorem probedNext_old (h : TlbPlaced p s.cp0) (hk : k < s.cp0.core.rob.length) :
    probedNext p s i (robSlot p s.cp0 k) =
      if (lookVa p s i).isSome && i.look.any fun j =>
          decide (robSlot p s.cp0 k = robSlot p s.cp0 j) then
        some ((dtlbNext p s i).hit, (dtlbNext p s i).hitIndex)
      else s.probed (robSlot p s.cp0 k) := by
  have hfresh : fresh p s.cp0 (turn p s i) (robSlot p s.cp0 k) = false :=
    fresh_old h.cp0.sane h.cp0.short hk
  rw [probedNext, hfresh]
  rfl

/-- The memory pipe answers a probe with what the data TLB has said. -/
theorem answer_probe {r : MemResult} (he : s.cp0.core.rob[k]? = some e) (hop : e.uop.op = .tlbp)
    (hd : s.cp0.core.regs.dsDone = false) (hr : (feed p s i).memDone = some (k, r)) :
    s.probed (robSlot p s.cp0 k) = some (r.tlbHit, r.tlbIndex) := by
  simp only [feed, fed, cp0In, Option.filter_eq_some_iff, Option.bind_eq_some_iff] at hr
  obtain ⟨⟨x, -, hx⟩, -⟩ := hr
  have hk : x.1 = k := by
    unfold answer at hx
    split at hx
    · obtain ⟨a, -, ha⟩ := Option.map_eq_some_iff.mp hx
      exact congrArg Prod.fst ha
    · exact congrArg Prod.fst (Option.some.inj hx)
  simp only [answer, hk, he, Option.any_some, hop, decide_true, hd, Bool.not_false, Bool.and_true,
    if_true] at hx
  obtain ⟨a, ha, hxr⟩ := Option.map_eq_some_iff.mp hx
  obtain rfl := (Prod.mk.inj hxr).2
  exact ha

/-- A probe that was there before. -/
theorem probeHeld_next (h : TlbPlaced p s.cp0) (hl : Captured s)
    (hno : strayTlbOp s.cp0.core (feed p s i) = false)
    (hcopy : ∀ j, s.dtlb.written j = true → s.dtlb.tlb j = s.shadow j) (hpr : Probes p s)
    (hclr : (turn p s i).clrRob = false)
    (he : s.cp0.core.rob[leaving (turn p s i) + k]? = some e) (hop : e.uop.op = .tlbp)
    (hds : (tlbNext p s i).cp0.core.regs.dsDone = false)
    (hclear : Clear (tlbNext p s i).cp0.core k) :
    ProbeHeld p (tlbNext p s i) k
      (e.next s.cp0.core (feed p s i) (leaving (turn p s i) + k)) := by
  have hlt := (List.getElem?_eq_some_iff.mp he).1
  obtain ⟨hold, hclear', hsave⟩ := probe_alive h hclr hds hclear
  have held := hpr _ e he hop hold hclear'
  obtain ⟨hw, -⟩ := probe_idle h hno he hop hclear'
  obtain ⟨hv, ht⟩ := hl.none hw
  obtain ⟨hsh, hwr⟩ := shadow_kept s hv
  have hcommit := commit_entryHi (i := i) h he hop
  have hfound (hw10 : wrData s 10 = none) : found (tlbNext p s i) = found s := by
    obtain ⟨hasid, hva⟩ := entryHi_kept (p := p) (i := i) ht hsave hw10
    exact found_congr hasid hva hsh hwr
  have hslot : robSlot p (tlbNext p s i).cp0 k =
      robSlot p s.cp0 (leaving (turn p s i) + k) := robSlot_next hclr k
  have hprobed : (tlbNext p s i).probed (robSlot p (tlbNext p s i).cp0 k) =
      probedNext p s i (robSlot p s.cp0 (leaving (turn p s i) + k)) := by
    rw [hslot]
    rfl
  refine ⟨?_, ?_, ?_⟩
  · intro va hva
    rw [hslot] at hva
    change probeVaNext p s i _ = some va at hva
    rw [probeVaNext_old h hlt] at hva
    refine ⟨hcommit, ?_⟩
    split at hva
    · exact (Option.some.inj hva).symm
    · obtain ⟨hw10, rfl⟩ := held.va va hva
      exact (entryHi_kept ht hsave hw10).2.symm
  · intro a ha
    refine ⟨hcommit, ?_⟩
    rw [hprobed, probedNext_old h hlt] at ha
    split at ha
    next hlook =>
      obtain ⟨hw10, hf⟩ := look_found hcopy held.va hlook
      rw [hfound hw10, ← hf]
      exact (Option.some.inj ha).symm
    next =>
      obtain ⟨hw10, hf⟩ := held.found a ha
      rw [hfound hw10, hf]
  · intro hc
    have hsaid : s.probed (robSlot p s.cp0 (leaving (turn p s i) + k)) =
        some ((e.next s.cp0.core (feed p s i) (leaving (turn p s i) + k)).tlbHit,
          (e.next s.cp0.core (feed p s i) (leaving (turn p s i) + k)).tlbIndex) := by
      obtain ⟨hcomp, hh, hi⟩ | ⟨r, hr, hh, hi⟩ := Entry.probe_next hop hc
      · rw [hh, hi]
        exact held.done hcomp
      · rw [hh, hi]
        exact answer_probe he hop hold hr
    -- if it is looked up once more, it finds the same
    rw [hprobed, probedNext_old h hlt]
    split
    next hlook => rw [(look_found hcopy held.va hlook).2, (held.found _ hsaid).2]
    next => exact hsaid

theorem probes_next (h : TlbPlaced p s.cp0) (hl : Captured s)
    (hno : strayTlbOp s.cp0.core (feed p s i) = false)
    (hcopy : ∀ j, s.dtlb.written j = true → s.dtlb.tlb j = s.shadow j) (hpr : Probes p s) :
    Probes p (tlbNext p s i) := by
  intro k e' he' hop hds hclear
  obtain ⟨hclr, ⟨e, he, rfl⟩ | ⟨hk, hnew⟩⟩ := next_getElem? h.cp0.sane.rob h.cp0.sane.fits he'
  · rw [Entry.next_uop] at hop
    exact probeHeld_next h hl hno hcopy hpr hclr he hop hds hclear
  · have hfresh : fresh p s.cp0 (turn p s i) (robSlot p (tlbNext p s i).cp0 k) = true := by
      have hf := fresh_new h.cp0.sane hnew
      rw [Nat.add_sub_cancel' hk, ← robSlot_next hclr] at hf
      exact hf
    have hva : (tlbNext p s i).probeVa (robSlot p (tlbNext p s i).cp0 k) = none := by
      change probeVaNext p s i _ = none
      rw [probeVaNext, hfresh, if_pos rfl]
    have hpd : (tlbNext p s i).probed (robSlot p (tlbNext p s i).cp0 k) = none := by
      change probedNext p s i _ = none
      rw [probedNext, hfresh, if_pos rfl]
    refine ⟨fun va h => ?_, fun a h => ?_, fun hc => ?_⟩
    · rw [hva] at h
      cases h
    · rw [hpd] at h
      cases h
    · obtain ⟨u, d, t, rfl, -, -⟩ := mem_newEntries (List.mem_of_getElem? hnew)
      change u.op.fold = true at hc
      change u.op = .tlbp at hop
      rw [hop] at hc
      cases hc

/-! ## The copies -/

/-- A written entry is the same in the three copies. -/
structure Copies (s : TlbState) : Prop where
  written : s.itlb.written = s.dtlb.written
  data : ∀ j, s.dtlb.written j = true → s.dtlb.tlb j = s.shadow j
  insn : ∀ j, s.dtlb.written j = true → s.itlb.tlb j = s.shadow j

theorem copies_next (h : Copies s) : Copies (tlbNext p s i) := by
  cases hw : tlbEntryOut s with
  | none =>
    have hsh : (tlbNext p s i).shadow = s.shadow := by
      change shadowNext s = _
      rw [shadowNext, hw]
    have hd : (tlbNext p s i).dtlb.written = s.dtlb.written ∧
        (tlbNext p s i).dtlb.tlb = s.dtlb.tlb := by
      change s.dtlb.writeWritten (tlbEntryOut s) = _ ∧ s.dtlb.writeTlb (tlbEntryOut s) = _
      rw [hw]
      exact ⟨rfl, rfl⟩
    have hi : (tlbNext p s i).itlb.written = s.itlb.written ∧
        (tlbNext p s i).itlb.tlb = s.itlb.tlb := by
      change (s.itlb.tick (tlbEntryOut s) _ _).written = _ ∧
        (s.itlb.tick (tlbEntryOut s) _ _).tlb = _
      rw [hw]
      exact ⟨rfl, rfl⟩
    constructor
    · rw [hi.1, hd.1, h.written]
    · rw [hsh, hd.1, hd.2]
      exact h.data
    · rw [hsh, hd.1, hi.2]
      exact h.insn
  | some w =>
    have hsh (j : Fin numTlbEntries) : (tlbNext p s i).shadow j =
        if w.entry.toNat = j.val then w.stored else s.shadow j := by
      change shadowNext s j = _
      rw [shadowNext, hw]
      exact update_slot _ _ _ _
    have hd (j : Fin numTlbEntries) : (tlbNext p s i).dtlb.written j =
          (if w.entry.toNat = j.val then true else s.dtlb.written j) ∧
        (tlbNext p s i).dtlb.tlb j =
          if w.entry.toNat = j.val then w.stored else s.dtlb.tlb j := by
      change s.dtlb.writeWritten (tlbEntryOut s) j = _ ∧ s.dtlb.writeTlb (tlbEntryOut s) j = _
      rw [hw]
      exact ⟨update_slot _ _ _ _, update_slot _ _ _ _⟩
    have hi (j : Fin numTlbEntries) : (tlbNext p s i).itlb.written j =
          (if w.entry.toNat = j.val then true else s.itlb.written j) ∧
        (tlbNext p s i).itlb.tlb j =
          if w.entry.toNat = j.val then w.stored else s.itlb.tlb j := by
      change (s.itlb.tick (tlbEntryOut s) _ _).written j = _ ∧
        (s.itlb.tick (tlbEntryOut s) _ _).tlb j = _
      rw [hw]
      exact ⟨update_slot _ _ _ _, update_slot _ _ _ _⟩
    constructor
    · funext j
      rw [(hi j).1, (hd j).1, h.written]
    · intro j hj
      rw [(hd j).1] at hj
      rw [(hd j).2, hsh j]
      split at hj
      next heq => rw [if_pos heq, if_pos heq]
      next hne => rw [if_neg hne, if_neg hne, h.data j hj]
    · intro j hj
      rw [(hd j).1] at hj
      rw [(hi j).2, hsh j]
      split at hj
      next heq => rw [if_pos heq, if_pos heq]
      next hne => rw [if_neg hne, if_neg hne, h.insn j hj]

/-! ## Random -/

theorem random_next (hwired : (wrData s 6).all fun d => decide ((d.setWidth 6).toNat < numTlbEntries))
    (h : s.wired ≤ s.random ∧ s.random.toNat < numTlbEntries) :
    wiredNext s ≤ randomNext p s i ∧ (randomNext p s i).toNat < numTlbEntries := by
  have hN : numTlbEntries = 48 := rfl
  obtain ⟨hle, hlt⟩ := h
  rw [BitVec.le_def] at hle
  rw [wiredNext, randomNext, BitVec.le_def]
  cases hw : wrData s 6 with
  | some d =>
    rw [hw, Option.all_some, decide_eq_true_eq] at hwired
    simp only [Option.map_some, Option.getD_some, Option.isSome_some, if_true]
    constructor
    · have : (47 : BitVec 6).toNat = 47 := rfl
      omega
    · decide
  | none =>
    simp only [Option.map_none, Option.getD_none, Option.isSome_none, Bool.false_eq_true, if_false]
    have h47 : (47 : BitVec 6).toNat = 47 := rfl
    split
    · split
      · constructor
        · omega
        · decide
      next hne =>
        have hne' : s.random.toNat ≠ s.wired.toNat := fun heq => hne (BitVec.eq_of_toNat_eq heq)
        have hsub : (s.random - 1).toNat = s.random.toNat - 1 := by bv_omega
        omega
    · exact ⟨hle, hlt⟩

/-! ## Runs -/

/-- The TLB at reset. -/
def tlbBoot (shadow : Fin numTlbEntries → TlbStored) : TlbUnit where
  regs := {}
  tlb := shadow
  written := fun _ => false

structure TlbInv (p : Params) (u : TlbUnit) (s : TlbState) : Prop where
  placed : TlbPlaced p s.cp0
  latched : Captured s
  recorded : s.done.map Prod.fst ++ (commits s.cp0).map Cp0Write.event =
    s.program ++ pending s.cp0.core
  unit : settled s = u.after s.done
  follows : u.Follows s.done
  random : s.wired ≤ s.random ∧ s.random.toNat < numTlbEntries
  index : s.regs.index.toNat < numTlbEntries
  copies : Copies s
  probes : Probes p s

/-- Index and Wired are written with numbers of entries. -/
def Ranged (s : TlbState) : Prop :=
  ((wrData s 0).all fun d => decide ((d.setWidth 6).toNat < numTlbEntries)) = true ∧
    ((wrData s 6).all fun d => decide ((d.setWidth 6).toNat < numTlbEntries)) = true

instance : Decidable (Ranged s) := inferInstanceAs (Decidable (_ ∧ _))

/-- What the law asks of a cycle: no operation that uses the TLB is executed behind a squashed
entry, and the step gate holds no serializing operation. -/
def TlbOk (p : Params) (s : TlbState) (i : TlbInput) : Prop :=
  Ranged s ∧ strayTlbOp s.cp0.core (feed p s i) = false ∧
    heldSerial s.cp0.core (feed p s i) = false

instance : Decidable (TlbOk p s i) := inferInstanceAs (Decidable (_ ∧ _ ∧ _))

/-- A probe that retires has found what the unit finds. -/
theorem probe_found (h : TlbPlaced p s.cp0) (hpr : Probes p s) {x : Bool × BitVec 6}
    (hx : wrTlbp s.cp0.core (turn p s i) = some x) : wrData s 10 = none ∧ x = found s := by
  have hturn := retires_cases (i := cp0In p s i) h
  cases hturn with
  | none _ hp => exact absurd (hx.symm.trans hp) (by simp)
  | use _ _ _ _ _ _ _ hp => exact absurd (hx.symm.trans hp) (by simp)
  | move _ _ _ _ _ _ hp => exact absurd (hx.symm.trans hp) (by simp)
  | probe e es hrob hdone hop hr hp =>
    obtain rfl := Option.some.inj (hx.symm.trans hp)
    have hds : s.cp0.core.regs.dsDone = false := by
      have hexit := exit_cases (p := p) (i := feed p s i) h.cp0.sane.rob h.cp0.sane.fits
      have of_active (hs : s.cp0.core.regs.state = .active) : s.cp0.core.regs.dsDone = false := by
        by_contra hd
        have := h.probes.undone (by simpa using hd)
        simp [hs, FsmState.doneWith] at this
      have quiet (hret : (comb p s.cp0.core (feed p s i)).retire = false) : False := by
        have : retires s.cp0.core (comb p s.cp0.core (feed p s i)) = [] := by
          simp [retires, retiring, hret]
        exact absurd (hr.symm.trans this) (by simp)
      cases hexit with
      | none _ hret => exact (quiet hret).elim
      | fault _ _ hret => exact (quiet hret).elim
      | one _ _ _ _ _ hs =>
        obtain hs | ⟨-, hd⟩ := hs
        · exact of_active hs
        · exact hd
      | two _ _ _ _ _ _ _ _ _ hs => exact of_active hs
    have hclear : Clear s.cp0.core 0 := fun j f hj => absurd hj (Nat.not_lt_zero j)
    have held := hpr 0 e (by simp [hrob]) hop hds hclear
    have hcomp : e.complete = true := by
      rw [Entry.done, Bool.and_eq_true] at hdone
      exact hdone.2
    exact held.found _ (held.done hcomp)

/-- What is done in a cycle may be done. -/
theorem allowed_next {u : TlbUnit} (h : TlbInv p u s)
    (hno : strayTlbOp s.cp0.core (feed p s i) = false) :
    (settled s).Follows ((performed p s i).map (·, s.random)) := by
  have hcycle := tlbCycle (i := cp0In p s i) h.placed hno
  cases hcycle with
  | starts k e e' hst hu ha hw =>
    obtain ⟨hv, ht⟩ := h.latched.none hw
    have hdone : acts s.cp0.core (feed p s i) = e.uop.op.tlbEvent.toList := by
      rw [acts, show starting s.cp0.core (feed p s i) = some (k, e) from hst]
    rw [performed_alone ha, hdone, settled_idle hv ht]
    revert hu
    cases hop : e.uop.op <;> intro hu <;> simp only [Op.usesTlb, Bool.false_eq_true] at hu
    · exact ⟨h.index, trivial⟩
    · exact ⟨h.index, trivial⟩
    · exact ⟨h.random, trivial⟩
  | ends e hw ha hacts =>
    have hnil : acts s.cp0.core (feed p s i) = [] := acts_nil hacts
    rw [performed_alone ha, hnil]
    trivial
  | stays e e' hw ha hacts =>
    have hnil : acts s.cp0.core (feed p s i) = [] := acts_nil hacts
    rw [performed_alone ha, hnil]
    trivial
  | idle hw hacts =>
    obtain ⟨hv, ht⟩ := h.latched.none hw
    have hnil : acts s.cp0.core (feed p s i) = [] := acts_nil hacts
    rw [performed, hnil, List.append_nil, commits_eq, settled_idle hv ht]
    simp only [List.map_append, TlbUnit.follows_append]
    refine ⟨⟨?_, ?_⟩, ?_⟩
    · cases cp0Wr s with
      | none => trivial
      | some w => exact ⟨trivial, trivial⟩
    · cases hp : wrTlbp s.cp0.core (turn p s i) with
      | none => trivial
      | some x =>
        obtain ⟨hw10, rfl⟩ := probe_found h.placed h.probes hp
        refine ⟨TlbUnit.probe_allowed ?_, trivial⟩
        cases hwr : cp0Wr s with
        | none => rfl
        | some w =>
          have hreg : ¬ w.reg = 10#5 := by
            intro hreg
            rw [wrData_some hwr, if_pos (show w.reg = 10 from hreg)] at hw10
            cases hw10
          have hsearch := search_congr (t := ⟨s.regs, s.shadow, s.dtlb.written⟩)
            (u := ⟨s.regs.move w.reg w.data w.wide, s.shadow, s.dtlb.written⟩)
            (by simp [move_fields, hreg]) (by simp [move_fields, hreg, TlbRegs.probeVa]) rfl rfl
          exact congrArg (fun m => (m.isSome, matchIdx m)) hsearch.symm
    · unfold saves
      split
      · exact ⟨trivial, trivial⟩
      · split
        · exact ⟨trivial, trivial⟩
        · trivial

theorem index_next (h : TlbPlaced p s.cp0) (hpr : Probes p s)
    (hindex : (wrData s 0).all fun d => decide ((d.setWidth 6).toNat < numTlbEntries))
    (hi : s.regs.index.toNat < numTlbEntries) :
    (regsNext p s i).index.toNat < numTlbEntries := by
  simp only [regsNext]
  cases hp : wrTlbp s.cp0.core (turn p s i) with
  | some x =>
    obtain ⟨-, rfl⟩ := probe_found h hpr hp
    exact Mmu.matchIdx_lt _
  | none =>
    cases hw : wrData s 0 with
    | none => exact hi
    | some d =>
      rw [hw, Option.all_some, decide_eq_true_eq] at hindex
      exact hindex

theorem tlbInv_next {u : TlbUnit} (h : TlbInv p u s) (hok : TlbOk p s i) :
    TlbInv p u (tlbNext p s i) := by
  obtain ⟨⟨hindex, hwired⟩, hno, hheld⟩ := hok
  have hbal := balance (i := cp0In p s i) h.placed hno
  exact {
    placed := tlbPlaced_next h.placed hno hheld
    latched := latched_next h.placed hno
    recorded := by
      have hdone : (tlbNext p s i).done.map Prod.fst =
          s.done.map Prod.fst ++ performed p s i := by
        simp [tlbNext, Function.comp_def]
      have hperf : performed p s i = (commits s.cp0).map Cp0Write.event ++
          ((wrTlbp s.cp0.core (turn p s i)).toList.map (fun x => TlbEvent.probe x.1 x.2) ++
            acts s.cp0.core (feed p s i) ++ saves s.cp0.core (turn p s i)) := by
        simp [performed]
      calc (tlbNext p s i).done.map Prod.fst ++
            (commits (tlbNext p s i).cp0).map Cp0Write.event
          = (s.done.map Prod.fst ++ (commits s.cp0).map Cp0Write.event) ++
              ((wrTlbp s.cp0.core (turn p s i)).toList.map (fun x => TlbEvent.probe x.1 x.2) ++
                acts s.cp0.core (feed p s i) ++ saves s.cp0.core (turn p s i)) ++
              (commits (tlbNext p s i).cp0).map Cp0Write.event := by
            rw [hdone, hperf, ← List.append_assoc]
        _ = s.program ++ (pending s.cp0.core ++
              ((wrTlbp s.cp0.core (turn p s i)).toList.map (fun x => TlbEvent.probe x.1 x.2) ++
                acts s.cp0.core (feed p s i) ++ saves s.cp0.core (turn p s i)) ++
              (commits (tlbNext p s i).cp0).map Cp0Write.event) := by
            rw [h.recorded]
            simp only [List.append_assoc]
        _ = s.program ++ (retires s.cp0.core (turn p s i) ++ saves s.cp0.core (turn p s i) ++
              pending (tlbNext p s i).cp0.core) := congrArg (s.program ++ ·) hbal
        _ = (tlbNext p s i).program ++ pending (tlbNext p s i).cp0.core := by
            simp [tlbNext]
    unit := by
      rw [settled_next h.placed h.latched hno, h.unit, ← TlbUnit.after_append]
      rfl
    follows := by
      have hall := allowed_next h hno
      rw [h.unit] at hall
      exact TlbUnit.follows_append.mpr ⟨h.follows, hall⟩
    random := random_next hwired h.random
    index := index_next h.placed h.probes hindex h.index
    copies := copies_next h.copies
    probes := probes_next h.placed h.latched hno h.copies.data h.probes }

theorem tlbInv_reset (stage : Nat → Staged) (shadow : Fin numTlbEntries → TlbStored)
    (e : TlbStored) (d : Dtlb) (j : Jtlb) :
    TlbInv p (tlbBoot shadow) (tlbReset stage shadow e d j) where
  placed := tlbPlaced_reset stage
  latched :=
    { entryOut := by intro h; cases h
      tlbr := by intro h; cases h }
  recorded := rfl
  unit := rfl
  follows := trivial
  random := show (0 : BitVec 6) ≤ 47 ∧ (47 : BitVec 6).toNat < numTlbEntries by decide
  index := show (0 : BitVec 6).toNat < numTlbEntries by decide
  copies :=
    { written := rfl
      data := by intro j h; cases h
      insn := by intro j h; cases h }
  probes k e he := by simp [tlbReset, cp0Reset, reset] at he

/-- The law of the TLB, of what has been done since reset. -/
structure TlbLaw (u : TlbUnit) (s : TlbState) : Prop where
  /-- What has been done is what the program does, in its order: a CP0 write follows its
  instruction by a cycle, and an operation that uses the TLB goes before its own. -/
  accounted : s.done.map Prod.fst ++ (commits s.cp0).map Cp0Write.event =
    s.program ++ pending s.cp0.core
  /-- The registers and the copies are what it leaves. -/
  unit : settled s = u.after s.done
  /-- `TLBWI`, `TLBWR` and `TLBR` name entries there are, and `TLBP` is answered rightly. -/
  allowed : u.Follows s.done
  /-- A write writes one entry, with what the registers hold. -/
  writes : ∀ a x b idx, s.done = a ++ x :: b → (u.after a).writes x = some idx →
    ∃ j : Fin numTlbEntries, idx.toNat = j.val ∧
      ((u.after a).step x).tlb j = (u.after a).regs.staged ∧
      ∀ m, m ≠ j → ((u.after a).step x).tlb m = (u.after a).tlb m
  /-- The wired entries are not written by `TLBWR`. -/
  wired : ∀ a v b (j : Fin numTlbEntries), s.done = a ++ (.writeRandom, v) :: b →
    j.val < (u.after a).wired.toNat →
      ((u.after a).step (.writeRandom, v)).tlb j = (u.after a).tlb j
  /-- `TLBR` restores what was written. -/
  restores : ∀ a x l v b idx (j : Fin numTlbEntries), s.done = a ++ x :: (l ++ (.read, v) :: b) →
    (u.after a).writes x = some idx → idx.toNat = j.val →
    ((u.after a).step x).Spares j l → (((u.after a).step x).after l).regs.index = idx →
      ((((u.after a).step x).after l).step (.read, v)).regs.staged = (u.after a).regs.staged
  /-- The three copies agree. -/
  copies : Copies s
  random : s.wired ≤ s.random ∧ s.random.toNat < numTlbEntries

theorem tlbLaw_of {u : TlbUnit} (h : TlbInv p u s) : TlbLaw u s where
  accounted := h.recorded
  unit := h.unit
  allowed := h.follows
  writes := by
    intro a x b idx hdone hw
    have hallowed := h.follows
    rw [hdone, TlbUnit.follows_append] at hallowed
    exact TlbUnit.writes_one hallowed.2.1 hw
  wired := by
    intro a v b j hdone hj
    have hallowed := h.follows
    rw [hdone, TlbUnit.follows_append] at hallowed
    exact TlbUnit.wired_kept hallowed.2.1 hj
  restores := by
    intro a x l v b idx j _ hw hj hs hidx
    exact TlbUnit.read_restores hw hj hs hidx
  copies := h.copies
  random := h.random

/-- In every run that executes no operation that uses the TLB behind a squashed entry and holds
no serializing operation at the step gate, the TLB keeps its law. -/
theorem tlb_law (p : Params) (stage : Nat → Staged) (shadow : Fin numTlbEntries → TlbStored)
    (e : TlbStored) (d : Dtlb) (j : Jtlb) (is : List TlbInput)
    (hrun : Hw.RunOk (tlbNext p) (TlbOk p) (tlbReset stage shadow e d j) is) :
    TlbLaw (tlbBoot shadow) (Hw.run (tlbNext p) (tlbReset stage shadow e d j) is) :=
  tlbLaw_of (hrun.invariant (I := TlbInv p (tlbBoot shadow))
    (fun _ _ hs hok => tlbInv_next hs hok) (tlbInv_reset stage shadow e d j))

end Step

/-- An operation that uses the TLB. -/
def Uop.tlbwi (pc : BitVec 64) : Uop where
  toUopFields := { UopFields.blank .tlbwi pc 0 with isInt := true, oldestFirst := true }
  ok := by
    constructor <;> simp [UopFields.blank, Op.serializes, Op.isXflush, Op.writesNow, Op.moves]

/-- A reserved encoding of `REGIMM`, which is decoded as a branch. -/
def Uop.regimm (pc : BitVec 64) : Uop where
  toUopFields :=
    { UopFields.blank .ii pc 0 with isBr := true, hasDelaySlot := true, isInt := true }
  ok := by
    constructor <;> simp [UopFields.blank, Op.serializes, Op.isXflush, Op.writesNow, Op.moves,
      Op.jumps]

/-- The machine with nothing in its TLB. -/
def tlbStart : TlbState :=
  tlbReset (fun _ => ⟨0, 0, false⟩) (fun _ => {}) {}
    ⟨fun _ => {}, fun _ => false, false, 0, false, false, 3, 0⟩
    ⟨⟨fun _ => {}, fun _ => false, fun _ => false, false, 0, 0, false, fun _ => {}, 0x5a, 0⟩,
      false, 3⟩

/-- A cycle of the core, with nothing looked up. -/
def plain (j : Input) : TlbInput :=
  ⟨⟨j, false, none⟩, .other, none, ⟨0, false, false, 0⟩, ⟨0, false, false, 0⟩, false⟩

/-- An entry is written, and the program goes on. -/
def tlbwiRun : List TlbInput :=
  (boot ++
    [{ quiet with insn := some ⟨.tlbwi 0x1000, false, false, by decide⟩ }, quiet,
     { quiet with start := some 0 },
     { quiet with intDone := some (0, IntResult.of true 0x1004 false 0) }, quiet, quiet,
     { quiet with restartAck := true }]).map plain

theorem tlb_law_tlbwi :
    Hw.RunOk (tlbNext machine) (TlbOk machine) tlbStart tlbwiRun ∧
      TlbLaw (tlbBoot fun _ => {}) (Hw.run (tlbNext machine) tlbStart tlbwiRun) :=
  ⟨by decide +kernel, tlb_law machine _ _ _ _ _ tlbwiRun (by decide +kernel)⟩

/-- `TLBWI` in the slot of a reserved encoding is executed, and then thrown away. -/
def strayRun : List TlbInput :=
  (boot ++
    [{ quiet with
       insn := some ⟨.regimm 0x1000, true, false, by decide⟩
       insnTwo := some ⟨.tlbwi 0x1004, false, false, by decide⟩ },
     quiet, quiet, { quiet with start := some 1 },
     { quiet with intDone := some (1, IntResult.of true 0x1008 false 0) }, quiet, quiet, quiet,
     quiet, { quiet with restartAck := true }]).map plain

theorem tlb_law_stray :
    ¬ ∀ (p : Params) (stage : Nat → Staged) (shadow : Fin numTlbEntries → TlbStored)
      (e : TlbStored) (d : Dtlb) (j : Jtlb) (is : List TlbInput),
      Hw.RunOk (tlbNext p) (fun s _ => Ranged s) (tlbReset stage shadow e d j) is →
        TlbLaw (tlbBoot shadow) (Hw.run (tlbNext p) (tlbReset stage shadow e d j) is) := by
  intro h
  have hlaw := (h machine _ _ _ _ _ strayRun
    (show Hw.RunOk (tlbNext machine) (fun s _ => Ranged s) tlbStart strayRun by
      decide +kernel)).accounted
  revert hlaw
  decide +kernel

end Core

end R9999
