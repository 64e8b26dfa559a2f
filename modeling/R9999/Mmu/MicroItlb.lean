import Mathlib.Tactic.SplitIfs
import R9999.Mmu.Itlb

/-!
# The micro-TLB against the TLB

An entry of the micro-TLB is a copy of an entry of the TLB that has been written: a write
clears the micro-TLB, and the index of an install is that of a match.  It is not for an
address that is not mapped in the last cycle of its wait, for which `hit` is set whatever the
lookup says; the mode can change in that cycle.
-/

namespace R9999

namespace Mmu

open Iss (numTlbEntries)
open Hw (run RunOk)

section Copy

variable (e : TlbStored) (va : BitVec 64)

theorem copy_pgsz : (MicroEntry.copy e).pgsz = e.pgsz := rfl

/-- A copy matches what its original matches. -/
theorem copy_hits (asid : BitVec 8) :
    (MicroEntry.copy e).hits va asid = (e.addrSpaceMatch asid && e.hit8k va) := by
  simp only [MicroEntry.hits, MicroEntry.copy, TlbStored.addrSpaceMatch, TlbStored.hit8k,
    Bool.true_and]
  rw [Bool.and_comm]

/-- The two are the same translation. -/
theorem copy_pa : (MicroEntry.copy e).pa va = e.pa va := by
  unfold MicroEntry.pa TlbStored.pa TlbStored.page MicroEntry.odd
  rw [copy_pgsz]
  dsimp only
  split <;> rfl

theorem copy_pageValid : (MicroEntry.copy e).pageValid va = (e.page va).v := by
  unfold MicroEntry.pageValid TlbStored.page MicroEntry.odd
  rw [copy_pgsz]
  split <;> rfl

end Copy

/-- The valid entries are copies of entries that have been written. -/
def Itlb.Copies (t : Itlb) : Prop :=
  ∀ u, (t.micro u).valid = true →
    ∃ j, t.written j = true ∧ t.micro u = MicroEntry.copy (t.tlb j)

/-- For an address that no two written entries match, a hit in the micro-TLB is a hit of the
lookup in all entries, with the same translation. -/
def Itlb.Translates (t : Itlb) : Prop :=
  ∀ va asid, (∀ j k, t.hits va asid j = true → t.hits va asid k = true → j = k) →
    t.microHit va asid = true →
      ∃ j, t.search va asid = some j ∧ (t.tlb j).pa va = (t.selected va asid).pa va ∧
        ((t.tlb j).page va).v = (t.selected va asid).pageValid va

section Selected

variable {t : Itlb} {va : BitVec 64} {asid : BitVec 8}

/-- An entry that a fold over the matches ends with. -/
theorem foldl_selects {n : Nat} (micro : Fin n → MicroEntry) (l : List (Fin n)) (e : MicroEntry)
    (h : (l.any fun u => (micro u).hits va asid) = true ∨ e.hits va asid = true) :
    let s := l.foldl (fun e u => if (micro u).hits va asid then micro u else e) e
    s.hits va asid = true ∧ (s = e ∨ ∃ u, s = micro u) := by
  induction l generalizing e with
  | nil => simpa using h
  | cons u l ih =>
    simp only [List.any_cons, Bool.or_eq_true] at h
    simp only [List.foldl_cons]
    by_cases hu : (micro u).hits va asid = true
    · rw [if_pos hu]
      obtain ⟨hhits, heq⟩ := ih (micro u) (.inr hu)
      exact ⟨hhits, .inr (heq.elim (fun heq => ⟨u, heq⟩) id)⟩
    · rw [if_neg hu]
      refine ih e ?_
      rcases h with (h | h) | h
      · exact absurd h hu
      · exact .inl h
      · exact .inr h

theorem selected_hits (h : t.microHit va asid = true) :
    (t.selected va asid).hits va asid = true ∧ ∃ u, t.selected va asid = t.micro u := by
  obtain ⟨hhits, heq⟩ := foldl_selects t.micro _ {} (.inl h)
  refine ⟨hhits, heq.resolve_left fun hblank => ?_⟩
  rw [hblank] at hhits
  simp [MicroEntry.hits] at hhits

theorem hits_of_search {j : Fin numTlbEntries} (h : t.search va asid = some j) :
    t.hits va asid j = true :=
  List.find?_some h

/-- Copies of written entries translate as the entries do. -/
theorem Itlb.Copies.translates (h : t.Copies) : t.Translates := by
  intro va asid hunique hhit
  obtain ⟨hhits, u, hu⟩ := selected_hits hhit
  have hvalid : (t.micro u).valid = true := by
    rw [hu] at hhits
    simp only [MicroEntry.hits, Bool.and_eq_true] at hhits
    exact hhits.1.1.1
  obtain ⟨j, hwritten, hcopy⟩ := h u hvalid
  rw [hcopy] at hu
  have hj : t.hits va asid j = true := by
    rw [hu, copy_hits] at hhits
    simp only [Itlb.hits, hwritten, Bool.and_true]
    exact hhits
  obtain ⟨k, hk⟩ : ∃ k, t.search va asid = some k := by
    rw [← Option.isSome_iff_exists, Itlb.search, List.find?_isSome]
    exact ⟨j, List.mem_finRange j, hj⟩
  have heq : k = j := hunique k j (hits_of_search hk) hj
  rw [heq] at hk
  refine ⟨j, hk, ?_, ?_⟩
  · rw [hu, copy_pa]
  · rw [hu, copy_pageValid]

end Selected

namespace Fetch

variable {f : Fetch} {i : FetchIn}

/-- The index of an install is that of an entry that has been written, or the address was
mapped in the last cycle of its wait. -/
def InstallOk (f : Fetch) (i : FetchIn) : Prop :=
  f.itlb.installs (f.itlbIn i) = true →
    f.mapped = true ∨ ∃ j : Fin numTlbEntries, f.itlb.hitIndex = BitVec.ofNat 6 j ∧
      f.itlb.written j = true

instance (f : Fetch) (i : FetchIn) : Decidable (InstallOk f i) :=
  inferInstanceAs (Decidable (_ → _))

/-- What every run keeps. -/
structure Inv (f : Fetch) : Prop where
  rHits : ∀ j, f.itlb.rHits j = true → f.itlb.written j = true
  hit : f.itlb.hit = true → f.mapped = true →
    ∃ j : Fin numTlbEntries, f.itlb.hitIndex = BitVec.ofNat 6 j ∧ f.itlb.written j = true
  copies : f.itlb.Copies

theorem written_mono {t : Itlb} (n : ItlbIn) {j : Fin numTlbEntries}
    (h : t.written j = true) : t.writeWritten n j = true := by
  unfold Itlb.writeWritten
  rcases n.tlbEntryIn with _ | ⟨idx, e⟩
  · exact h
  · by_cases hidx : idx.toNat < numTlbEntries
    · simp only [dif_pos hidx, Function.update_apply]
      split
      · rfl
      · exact h
    · simp only [dif_neg hidx]
      exact h

theorem slot_ofNat (t : Itlb) (j : Fin numTlbEntries) : t.slot (BitVec.ofNat 6 j) = t.tlb j := by
  have hj : j.val < 48 := j.isLt
  have hnat : (BitVec.ofNat 6 j.val).toNat = j.val := by
    rw [BitVec.toNat_ofNat]
    omega
  have hlt : (BitVec.ofNat 6 j.val).toNat < numTlbEntries := by
    rw [hnat]
    exact j.isLt
  rw [Itlb.slot, dif_pos hlt]
  congr 1
  exact Fin.ext hnat

/-- Without a flush the entries stay. -/
theorem not_flushes {t : Itlb} {n : ItlbIn} (h : t.flushes n = false) : n.tlbEntryIn = none := by
  simp only [Itlb.flushes, Bool.or_eq_false_iff] at h
  exact Option.isNone_iff_eq_none.mp (by simpa using h.1)

/-- The micro-TLB in the next cycle. -/
theorem copies_tick {t : Itlb} {n : ItlbIn} (h : t.Copies)
    (hok : t.installs n = true →
      ∃ j : Fin numTlbEntries, t.hitIndex = BitVec.ofNat 6 j ∧ t.written j = true) :
    (t.tick n).Copies := by
  intro u hu
  show ∃ j, t.writeWritten n j = true ∧ t.nextMicro n u = MicroEntry.copy (t.writeTlb n j)
  have hvalid : (t.nextMicro n u).valid = true := hu
  by_cases hflush : t.flushes n = true
  · simp [Itlb.nextMicro, hflush] at hvalid
  · have hnone := not_flushes (Bool.eq_false_iff.mpr hflush)
    have hwritten : t.writeWritten n = t.written := by simp only [Itlb.writeWritten, hnone]
    have htlb : t.writeTlb n = t.tlb := by simp only [Itlb.writeTlb, hnone]
    rw [hwritten, htlb]
    unfold Itlb.nextMicro at hvalid ⊢
    rw [if_neg hflush] at hvalid ⊢
    by_cases hinst : (n.installEn && t.hit) = true
    · obtain ⟨j, hindex, hj⟩ := hok (by
        rw [Itlb.installs, Bool.and_assoc, hinst, Bool.eq_false_iff.mpr hflush]
        rfl)
      rw [if_pos hinst] at hvalid ⊢
      rw [Function.update_apply] at hvalid ⊢
      by_cases hrepl : u = t.repl
      · rw [if_pos hrepl, hindex, slot_ofNat]
        exact ⟨j, hj, rfl⟩
      · rw [if_neg hrepl] at hvalid ⊢
        exact h u hvalid
    · rw [if_neg hinst] at hvalid ⊢
      exact h u hvalid

/-- The index of a match. -/
theorem hitIdx_written {t : Itlb} (h : ∀ j, t.rHits j = true → t.written j = true)
    (hany : (List.finRange numTlbEntries).any t.rHits = true) :
    ∃ j : Fin numTlbEntries, t.hitIdx = BitVec.ofNat 6 j ∧ t.written j = true := by
  unfold Itlb.hitIdx
  cases hfind : (List.finRange numTlbEntries).find? t.rHits with
  | none =>
    rw [List.any_eq_true] at hany
    obtain ⟨j, hmem, hj⟩ := hany
    exact absurd hj (List.find?_eq_none.mp hfind j hmem)
  | some j => exact ⟨j, rfl, h j (List.find?_some hfind)⟩

theorem inv_tick (h : Inv f) (hok : InstallOk f i) : Inv (f.tick i) := by
  have hinstall : f.itlb.installs (f.itlbIn i) = true →
      ∃ j : Fin numTlbEntries, f.itlb.hitIndex = BitVec.ofNat 6 j ∧ f.itlb.written j = true := by
    intro hinst
    rcases hok hinst with hmapped | hslot
    · simp only [Itlb.installs, Bool.and_eq_true] at hinst
      exact h.hit hinst.2 hmapped
    · exact hslot
  refine ⟨fun j hj => ?_, fun hhit hmapped => ?_, copies_tick h.copies hinstall⟩
  · have hhits : f.itlb.hits (f.itlbIn i).va (f.itlbIn i).asid j = true := hj
    simp only [Itlb.hits, Bool.and_eq_true] at hhits
    exact written_mono _ hhits.2
  · have hactive : (f.itlbIn i).active = true := hmapped
    have hany : (List.finRange numTlbEntries).any f.itlb.rHits = true := by
      have hhit' : (if (f.itlbIn i).active then
          (f.itlbIn i).req && (List.finRange numTlbEntries).any f.itlb.rHits else true) = true :=
        hhit
      rw [if_pos hactive] at hhit'
      exact hhit'
    obtain ⟨j, hindex, hj⟩ := hitIdx_written h.rHits hany
    exact ⟨j, hindex, written_mono _ hj⟩

theorem inv_reset (tlb : Fin numTlbEntries → TlbStored) (micro : Fin numUitlbEntries → MicroEntry) :
    Inv (reset tlb micro) where
  rHits := fun _ h => h
  hit := fun h => nomatch h
  copies := fun _ h => nomatch h

end Fetch

namespace Fetch

section Wait

variable {f : Fetch} {i : FetchIn}

theorem redirect_keeps {n r : Fetch} (h : redirect i n = some r) :
    r.itlbReady = n.itlbReady ∧ r.cachePc = n.cachePc := by
  unfold redirect at h
  split at h
  · cases h
    exact ⟨rfl, rfl⟩
  · split at h
    · cases h
      exact ⟨rfl, rfl⟩
    · split at h
      · cases h
        exact ⟨rfl, rfl⟩
      · cases h

theorem active_itlbReady : (f.active i).itlbReady = false := by
  unfold active
  dsimp only
  split
  case h_1 r hr => exact (redirect_keeps hr).1
  case h_2 => split_ifs <;> rfl

/-- The lookup is ready after a wait, for the address that waited. -/
theorem control_itlbReady (h : (f.control i).itlbReady = true) :
    f.state = .waitForTlb ∧ (f.control i).cachePc = f.missPc := by
  unfold control at h ⊢
  cases hstate : f.state with
  | waitForTlb =>
    refine ⟨rfl, ?_⟩
    simp only [waitForTlb]
    split
    case h_1 r hr => exact (redirect_keeps hr).2
    case h_2 => split <;> rfl
  | active =>
    simp only [hstate, active_itlbReady] at h
    cases h
  | reloadTurnaround =>
    simp only [hstate] at h
    split at h
    case h_1 r hr =>
      rw [(redirect_keeps hr).1] at h
      cases h
    case h_2 => split at h <;> cases h
  | waitForNotFull =>
    simp only [hstate] at h
    split at h
    case isTrue =>
      cases hr : redirect i { f.base i with cachePc := f.missPc } with
      | none => rw [hr] at h; cases h
      | some r =>
        rw [hr, Option.getD_some, (redirect_keeps hr).1] at h
        cases h
    case isFalse => cases h
  | init => simp only [hstate] at h; cases h
  | initPht => simp only [hstate] at h; split at h <;> cases h
  | idle => simp only [hstate] at h; split at h <;> cases h
  | injectReload => simp only [hstate] at h; split at h <;> cases h
  | flushCache => simp only [hstate] at h; split at h <;> (try split at h) <;> cases h

/-- An address that waits for the lookup is still mapped. -/
def StaysMapped (f : Fetch) (i : FetchIn) : Prop :=
  f.state = .waitForTlb → (mipsseg i.sr false f.missPc).mapped = true

theorem ready_mapped (hwait : StaysMapped f i) (h : (f.tick i).itlbReady = true) :
    (f.tick i).mapped = true := by
  obtain ⟨hstate, hpc⟩ := control_itlbReady h
  show (mipsseg i.sr false (f.control i).cachePc).mapped = true
  rw [hpc]
  exact hwait hstate

end Wait

/-- In a run in which the mode never changes so that an address that waits is no longer
mapped, every install is for a mapped address. -/
theorem installOk_of_staysMapped (tlb : Fin numTlbEntries → TlbStored)
    (micro : Fin numUitlbEntries → MicroEntry) {is : List FetchIn}
    (h : RunOk Fetch.tick StaysMapped (reset tlb micro) is) :
    RunOk Fetch.tick InstallOk (reset tlb micro) is := by
  refine RunOk.imp (I := fun f => f.itlbReady = true → f.mapped = true)
    (fun _ _ _ hwait hready => ready_mapped hwait hready) (fun f i hready _ hinst => ?_)
    (fun hready => absurd hready Bool.false_ne_true) h
  simp only [Itlb.installs, itlbIn, Bool.and_eq_true] at hinst
  exact .inl (hready hinst.1.2.1)

end Fetch

/-- In a run whose installs are all for an address that was still mapped in the last cycle of
its wait, or of a slot that has been written, the micro-TLB has copies of written slots, and
translates as the lookup does. -/
theorem micro_itlb_coherent (tlb : Fin numTlbEntries → TlbStored)
    (micro : Fin numUitlbEntries → MicroEntry) (is : List FetchIn)
    (hok : RunOk Fetch.tick Fetch.InstallOk (Fetch.reset tlb micro) is) :
    (run Fetch.tick (Fetch.reset tlb micro) is).itlb.Copies ∧
      (run Fetch.tick (Fetch.reset tlb micro) is).itlb.Translates := by
  have hinv := RunOk.invariant (fun _ _ h hok => Fetch.inv_tick h hok)
    (Fetch.inv_reset tlb micro) hok
  exact ⟨hinv.copies, hinv.copies.translates⟩

section Runs

/-- A cycle in which nothing comes. -/
def quiet (sr : BitVec 32) : FetchIn where
  sr
  asid := 0
  tlbEntryIn := none
  restartValid := false
  restartPc := 0
  flushReq := false
  flushLineReq := false
  fqFull := false
  memRspValid := false
  lineHit := false
  predicted := 0
  two := false
  initDone := false
  flushDone := false

/-- Status after reset. -/
def srReset : BitVec 32 := 0x14400004

/-- Status of a user program with 64-bit addresses, and as an exception leaves it. -/
def srUser : BitVec 32 := 0x30

def srHandler : BitVec 32 := 0x32

/-- From reset to a fetch of a user program, at an address that is mapped with 64-bit
addresses and unmapped with 32-bit ones.  Entry 47 has the 8 KB from 0x80000000. -/
def toUser (pc : BitVec 64) : List FetchIn :=
  [quiet srReset, { quiet srReset with initDone := true }, { quiet srReset with flushDone := true },
    { quiet srReset with restartValid := true, restartPc := 0xffffffffbfc00000 },
    { quiet srReset with
      tlbEntryIn := some (47, { vpn := 0x40000, page0 := { v := true }, page1 := { v := true } }) },
    { quiet srUser with restartValid := true, restartPc := pc }, quiet srUser, quiet srUser]

/-- A page of the program that entry 47 has is installed. -/
theorem micro_itlb_coherent_install :
    (run Fetch.tick (Fetch.reset (fun _ => {}) fun _ => {})
        (toUser 0x80001000 ++ List.replicate 4 (quiet srUser))).itlb.Copies ∧
      (run Fetch.tick (Fetch.reset (fun _ => {}) fun _ => {})
        (toUser 0x80001000 ++ List.replicate 4 (quiet srUser))).itlb.Translates :=
  micro_itlb_coherent _ _ _ (by decide +kernel)

/-- The program runs on into a page that is not in the TLB, and an exception sets Status.EXL
in the last cycle of the wait: an entry that was never written is installed, and then hits
where the lookup in all entries finds nothing. -/
def exceptionInWait : List FetchIn :=
  toUser 0x80002000 ++ [quiet srUser, quiet srUser, quiet srHandler, quiet srHandler]

theorem micro_itlb_incoherent :
    ¬ (run Fetch.tick (Fetch.reset (fun _ => {}) fun _ => {}) exceptionInWait).itlb.Copies ∧
      ¬ (run Fetch.tick (Fetch.reset (fun _ => {}) fun _ => {})
        exceptionInWait).itlb.Translates := by
  refine ⟨fun h => ?_, fun h => ?_⟩
  · have hnone : ∃ u : Fin numUitlbEntries,
        ((run Fetch.tick (Fetch.reset (fun _ => {}) fun _ => {}) exceptionInWait).itlb.micro
          u).valid = true ∧
        ∀ j, ¬ ((run Fetch.tick (Fetch.reset (fun _ => {}) fun _ => {}) exceptionInWait).itlb.written
            j = true ∧
          (run Fetch.tick (Fetch.reset (fun _ => {}) fun _ => {}) exceptionInWait).itlb.micro u =
            MicroEntry.copy ((run Fetch.tick (Fetch.reset (fun _ => {}) fun _ => {})
              exceptionInWait).itlb.tlb j)) := by
      decide +kernel
    obtain ⟨u, hvalid, hno⟩ := hnone
    obtain ⟨j, hj⟩ := h u hvalid
    exact hno j hj
  · have hmiss : (run Fetch.tick (Fetch.reset (fun _ => {}) fun _ => {})
        exceptionInWait).itlb.search 0 0 = none := by
      decide +kernel
    obtain ⟨j, hj, -⟩ := h 0 0 (by decide +kernel) (by decide +kernel)
    rw [hmiss] at hj
    cases hj

end Runs

end Mmu

end R9999
