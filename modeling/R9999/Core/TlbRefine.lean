import R9999.Core.TlbOrder

/-!
# The TLB instructions in the pipeline do what the program says

The registers and the copy for `TLBR`, with the one operation that is in its last cycle, are the
unit of the program after what has been done.
-/

namespace R9999

namespace Core

open Iss (numTlbEntries)
open Mmu (TlbRegs TlbEvent TlbUnit Rtl EntryLo matchIdx update_slot)

/-- What the registers and the copy for `TLBR` are once the operation in its last cycle is done. -/
def settled (s : TlbState) : TlbUnit where
  toRtl :=
    if s.entryOutValid then (Rtl.mk s.regs s.shadow s.dtlb.written).writeEntry s.tlbIndex
    else if s.tlbr then Rtl.mk (s.regs.load s.tlbEntry) s.shadow s.dtlb.written
    else Rtl.mk s.regs s.shadow s.dtlb.written
  wired := s.wired

/-! ## The registers -/

section Regs

variable {p : Params} {s : TlbState} {i : TlbInput}

theorem commits_eq : commits s.cp0 = (cp0Wr s).toList.map Cp0Write.move := by
  unfold commits cp0Wr
  split <;> rfl

theorem wrData_none (h : cp0Wr s = none) (reg : BitVec 5) : wrData s reg = none := by
  rw [wrData, h]
  rfl

theorem wrData_some {w : Staged} (h : cp0Wr s = some w) (reg : BitVec 5) :
    wrData s reg = if w.reg = reg then some w.data else none := by
  rw [wrData, h]
  by_cases hreg : w.reg = reg <;> simp [hreg]

theorem wrData_getD {α : Type} {w : Staged} (h : cp0Wr s = some w) (reg : BitVec 5)
    (f : BitVec 64 → α) (d : α) :
    ((wrData s reg).map f).getD d = if w.reg = reg then f w.data else d := by
  rw [wrData_some h]
  split <;> rfl

/-- A CP0 write, field by field. -/
theorem move_fields (r : TlbRegs) (reg : BitVec 5) (data : BitVec 64) (wide : Bool) :
    r.move reg data wide =
      { index := if reg = 0 then data.setWidth 6 else r.index
        probeFailed := if reg = 0 then data.getLsbD 31 else r.probeFailed
        entryhiAsid := if reg = 10 then data.setWidth 8 else r.entryhiAsid
        entryhiR := if reg = 10 then data.extractLsb' 62 2 else r.entryhiR
        entryhiVpn2 := if reg = 10 then data.extractLsb' 13 27 else r.entryhiVpn2
        entrylo0 := if reg = 2 then EntryLo.ofValue data else r.entrylo0
        entrylo1 := if reg = 3 then EntryLo.ofValue data else r.entrylo1
        pagemask := if reg = 5 then data.extractLsb' 13 12 else r.pagemask
        ptebase := if reg = 4 then data.extractLsb' 23 9 else r.ptebase
        xptebase := if wide then (if reg = 20 then data.extractLsb' 33 31 else r.xptebase)
          else r.xptebase
        badvpn2 := r.badvpn2
        badvaddr := r.badvaddr } := by
  unfold TlbRegs.move
  by_cases h0 : reg = 0
  · subst h0; cases wide <;> rfl
  by_cases h2 : reg = 2
  · subst h2; cases wide <;> rfl
  by_cases h3 : reg = 3
  · subst h3; cases wide <;> rfl
  by_cases h4 : reg = 4
  · subst h4; cases wide <;> rfl
  by_cases h5 : reg = 5
  · subst h5; cases wide <;> rfl
  by_cases h10 : reg = 10
  · subst h10; cases wide <;> rfl
  by_cases h20 : reg = 20
  · subst h20; cases wide <;> rfl
  simp only [h0, h2, h3, h4, h5, h10, h20, false_and, if_false, ite_self]

/-- Without a `TLBR` in its last cycle, the registers take the CP0 write, then the result of a
probe, then the exception. -/
theorem regsNext_idle (ht : s.tlbr = false)
    (hsave : s.cp0.core.regs.saveToTlbRegs = true →
      cp0Wr s = none ∧ (turn p s i).wrBadvaddr = true) (v : BitVec 6)
    (tlb : Fin numTlbEntries → Mmu.TlbStored) (written : Fin numTlbEntries → Bool) :
    TlbUnit.after ⟨⟨s.regs, tlb, written⟩, s.wired⟩
      (((commits s.cp0).map Cp0Write.event ++
        (wrTlbp s.cp0.core (turn p s i)).toList.map (fun x => TlbEvent.probe x.1 x.2) ++
        saves s.cp0.core (turn p s i)).map (·, v)) =
      ⟨⟨regsNext p s i, tlb, written⟩, wiredNext s⟩ := by
  -- the exception does not meet a CP0 write
  by_cases hs : s.cp0.core.regs.saveToTlbRegs = true
  · obtain ⟨hw, hb⟩ := hsave hs
    cases hp : wrTlbp s.cp0.core (turn p s i) <;>
      simp [commits_eq, hw, saves, hs, hb, hp, TlbUnit.step, regsNext, wiredNext, wrData_none hw,
        ht, TlbRegs.saveFault]
  · rw [Bool.not_eq_true] at hs
    cases hw : cp0Wr s with
    | none =>
      cases hp : wrTlbp s.cp0.core (turn p s i) <;> cases hb : (turn p s i).wrBadvaddr <;>
        simp [commits_eq, hw, saves, hs, hb, hp, TlbUnit.step, regsNext, wiredNext,
          wrData_none hw, ht]
    | some w =>
      have hwired : wiredNext s = if w.reg = 6 then w.data.setWidth 6 else s.wired :=
        wrData_getD hw 6 _ _
      cases hp : wrTlbp s.cp0.core (turn p s i) <;> cases hb : (turn p s i).wrBadvaddr <;>
        simp [commits_eq, hw, saves, hs, hb, hp, TlbUnit.step, Cp0Write.event, hwired, regsNext,
          wrData_getD hw, ht, move_fields]

theorem saves_nil {t : State} {c : Comb} (h : saves t c = []) :
    t.regs.saveToTlbRegs = false ∧ c.wrBadvaddr = false := by
  unfold saves at h
  cases hsave : t.regs.saveToTlbRegs with
  | true => simp [hsave] at h
  | false =>
    cases hb : c.wrBadvaddr with
    | true => simp [hsave, hb] at h
    | false => exact ⟨rfl, rfl⟩

/-- A `TLBR` in its last cycle. -/
theorem regsNext_load (ht : s.tlbr = true) (hw : cp0Wr s = none)
    (hp : wrTlbp s.cp0.core (turn p s i) = none)
    (hs : saves s.cp0.core (turn p s i) = []) :
    regsNext p s i = s.regs.load s.tlbEntry := by
  have hsave := saves_nil hs
  simp [regsNext, ht, wrData_none hw, hp, hsave, TlbRegs.load]

/-- What is outstanding of the operations that use the TLB is of the one that is under way. -/
structure Captured (s : TlbState) : Prop where
  entryOut : s.entryOutValid = true →
    ∃ e, underway s.cp0.core = some e ∧ (e.uop.op = .tlbwi ∨ e.uop.op = .tlbwr)
  tlbr : s.tlbr = true → ∃ e, underway s.cp0.core = some e ∧ e.uop.op = .tlbr

theorem Captured.none (h : Captured s) (hw : underway s.cp0.core = none) :
    s.entryOutValid = false ∧ s.tlbr = false := by
  constructor
  · by_contra hv
    obtain ⟨e, he, -⟩ := h.entryOut (by simpa using hv)
    simp [hw] at he
  · by_contra hv
    obtain ⟨e, he, -⟩ := h.tlbr (by simpa using hv)
    simp [hw] at he

/-- Nothing is latched in a cycle in which no such operation is executed. -/
theorem latch_quiet (hacts : ∀ k e, starting s.cp0.core (feed p s i) = some (k, e) →
    e.uop.op.usesTlb = false) :
    (tlbNext p s i).entryOutValid = false ∧ (tlbNext p s i).tlbr = false := by
  cases hst : acting p s i with
  | none => simp [tlbNext, hst]
  | some x =>
    have hu := hacts x.1 x.2 hst
    revert hu
    cases hop : x.2.uop.op <;> simp [tlbNext, hst, hop, Op.usesTlb]

theorem latched_next (h : TlbPlaced p s.cp0)
    (hno : strayTlbOp s.cp0.core (feed p s i) = false) : Captured (tlbNext p s i) := by
  have none (hacts : ∀ k e, starting s.cp0.core (feed p s i) = some (k, e) →
      e.uop.op.usesTlb = false) : Captured (tlbNext p s i) := by
    obtain ⟨h1, h2⟩ := latch_quiet hacts
    exact ⟨fun hv => absurd hv (by simp [h1]), fun hv => absurd hv (by simp [h2])⟩
  have hcycle := tlbCycle (i := cp0In p s i) h hno
  cases hcycle with
  | starts k e e' hst hu ha hw hr hn he =>
    have hst' : acting p s i = some (k, e) := hst
    constructor
    · intro hv
      refine ⟨e', hn, ?_⟩
      rw [he]
      simpa [tlbNext, hst'] using hv
    · intro hv
      refine ⟨e', hn, ?_⟩
      rw [he]
      simpa [tlbNext, hst'] using hv
  | ends e hw ha hacts => exact none hacts
  | stays e e' hw ha hacts => exact none hacts
  | idle hw hacts => exact none hacts

/-- The write of the copies. -/
theorem shadow_written (s : TlbState) (hv : s.entryOutValid = true) :
    Rtl.mk s.regs (shadowNext s) (s.dtlb.writeWritten (tlbEntryOut s)) =
      (Rtl.mk s.regs s.shadow s.dtlb.written).writeEntry s.tlbIndex := by
  simp only [shadowNext, Mmu.Dtlb.writeWritten, tlbEntryOut, hv, if_true, Rtl.writeEntry]
  split <;> rfl

theorem shadow_kept (s : TlbState) (hv : s.entryOutValid = false) :
    shadowNext s = s.shadow ∧ s.dtlb.writeWritten (tlbEntryOut s) = s.dtlb.written := by
  simp [shadowNext, Mmu.Dtlb.writeWritten, tlbEntryOut, hv]

/-- No CP0 write is outstanding. -/
theorem cp0Wr_none (h : s.cp0.retireValid = false) : cp0Wr s = none := by
  simp [cp0Wr, h]

theorem settled_idle (hv : s.entryOutValid = false) (ht : s.tlbr = false) :
    settled s = ⟨⟨s.regs, s.shadow, s.dtlb.written⟩, s.wired⟩ := by
  simp [settled, hv, ht]

/-- Without a CP0 write, a probe or an exception the registers stay. -/
theorem regs_kept (ha : Undisturbed p s.cp0 (cp0In p s i)) (ht : s.tlbr = false) :
    regsNext p s i = s.regs := by
  have hw := cp0Wr_none ha.valid
  have hp : wrTlbp s.cp0.core (turn p s i) = none := ha.probe
  have hs : saves s.cp0.core (turn p s i) = [] := ha.saves
  have hsave := (saves_nil hs).1
  have hidle := regsNext_idle (p := p) (i := i) ht (fun h => absurd h (by simp [hsave])) 0
    s.shadow s.dtlb.written
  rw [commits_eq, hw, hp, hs] at hidle
  exact (congrArg (fun u : TlbUnit => u.regs) hidle).symm

theorem wired_kept (ha : Undisturbed p s.cp0 (cp0In p s i)) : wiredNext s = s.wired := by
  rw [wiredNext, wrData_none (cp0Wr_none ha.valid)]
  rfl

/-- Beside an operation that uses the TLB nothing else is done. -/
theorem performed_alone (ha : Undisturbed p s.cp0 (cp0In p s i)) :
    performed p s i = acts s.cp0.core (feed p s i) := by
  have hp : wrTlbp s.cp0.core (turn p s i) = none := ha.probe
  have hs : saves s.cp0.core (turn p s i) = [] := ha.saves
  simp [performed, commits_eq, cp0Wr_none ha.valid, hp, hs]

/-- **The pipeline does what the program says**: a cycle takes the unit through what is done in
it. -/
theorem settled_next (h : TlbPlaced p s.cp0) (hl : Captured s)
    (hno : strayTlbOp s.cp0.core (feed p s i) = false) :
    settled (tlbNext p s i) =
      (settled s).after ((performed p s i).map (·, s.random)) := by
  -- the operation that was executed in the cycle before is in its last one
  have last (ha : Undisturbed p s.cp0 (cp0In p s i))
      (hacts : ∀ k e, starting s.cp0.core (feed p s i) = some (k, e) → e.uop.op.usesTlb = false) :
      settled (tlbNext p s i) =
        (settled s).after ((performed p s i).map (·, s.random)) := by
    obtain ⟨hv', ht'⟩ := latch_quiet (p := p) (i := i) hacts
    have hwired := wired_kept ha
    rw [performed_alone ha, acts_nil hacts, settled_idle hv' ht']
    change (⟨⟨regsNext p s i, shadowNext s, s.dtlb.writeWritten (tlbEntryOut s)⟩, wiredNext s⟩ :
      TlbUnit) = settled s
    cases ht : s.tlbr with
    | true =>
      have hv : s.entryOutValid = false := by
        by_contra hv
        obtain ⟨e, he, hop⟩ := hl.entryOut (by simpa using hv)
        obtain ⟨e', he', hop'⟩ := hl.tlbr ht
        obtain rfl := Option.some.inj (he.symm.trans he')
        simp [hop'] at hop
      obtain ⟨hsh, hwr⟩ := shadow_kept s hv
      rw [hsh, hwr, hwired, regsNext_load ht (cp0Wr_none ha.valid) ha.probe ha.saves]
      simp [settled, hv, ht]
    | false =>
      rw [hwired, regs_kept ha ht]
      cases hv : s.entryOutValid with
      | true =>
        rw [shadow_written s hv]
        simp [settled, hv]
      | false =>
        obtain ⟨hsh, hwr⟩ := shadow_kept s hv
        rw [hsh, hwr, settled_idle hv ht]
  have hcycle := tlbCycle (i := cp0In p s i) h hno
  cases hcycle with
  | starts k e e' hst hu ha hw hr hn he =>
    have hst' : acting p s i = some (k, e) := hst
    obtain ⟨hv, ht⟩ := hl.none hw
    obtain ⟨hsh, hwr⟩ := shadow_kept s hv
    have hdone : acts s.cp0.core (feed p s i) = e.uop.op.tlbEvent.toList := by
      rw [acts, show starting s.cp0.core (feed p s i) = some (k, e) from hst]
    have hregs : (tlbNext p s i).regs = s.regs := regs_kept ha ht
    have hwired : (tlbNext p s i).wired = s.wired := wired_kept ha
    have hshadow : (tlbNext p s i).shadow = s.shadow := hsh
    have hwritten : (tlbNext p s i).dtlb.written = s.dtlb.written := hwr
    rw [performed_alone ha, hdone, settled_idle hv ht]
    unfold settled
    rw [hregs, hwired, hshadow, hwritten]
    revert hu
    cases hop : e.uop.op <;> intro hu <;> simp only [Op.usesTlb, Bool.false_eq_true] at hu
    · have h1 : (tlbNext p s i).entryOutValid = false := by simp [tlbNext, hst', hop]
      have h2 : (tlbNext p s i).tlbr = true := by simp [tlbNext, hst', hop]
      rw [h1, h2]
      rfl
    · have h1 : (tlbNext p s i).entryOutValid = true := by simp [tlbNext, hst', hop]
      have h2 : (tlbNext p s i).tlbIndex = s.regs.index := by
        simp [tlbNext, intOp, hst', hop]
      rw [h1, h2]
      rfl
    · have h1 : (tlbNext p s i).entryOutValid = true := by simp [tlbNext, hst', hop]
      have h2 : (tlbNext p s i).tlbIndex = s.random := by
        simp [tlbNext, intOp, hst', hop]
      rw [h1, h2]
      rfl
  | ends e hw ha hacts => exact last ha hacts
  | stays e e' hw ha hacts => exact last ha hacts
  | idle hw hacts =>
    obtain ⟨hv, ht⟩ := hl.none hw
    obtain ⟨hv', ht'⟩ := latch_quiet (p := p) (i := i) hacts
    obtain ⟨hsh, hwr⟩ := shadow_kept s hv
    have hsave : s.cp0.core.regs.saveToTlbRegs = true →
        cp0Wr s = none ∧ (turn p s i).wrBadvaddr = true := by
      intro hs
      obtain ⟨hst, hb⟩ := h.saving hs
      refine ⟨cp0Wr_none (h.drained hst), ?_⟩
      rw [turn, wrBadvaddr_eq h.cp0.sane.fits, hb, decide_eq_true hst]
      rfl
    have hp : performed p s i = (commits s.cp0).map Cp0Write.event ++
        (wrTlbp s.cp0.core (turn p s i)).toList.map (fun x => TlbEvent.probe x.1 x.2) ++
        saves s.cp0.core (turn p s i) := by
      have hnil : acts s.cp0.core (feed p s i) = [] := acts_nil hacts
      rw [performed, hnil, List.append_nil]
    rw [settled_idle hv ht, settled_idle hv' ht', hp, regsNext_idle ht hsave]
    change (⟨⟨regsNext p s i, shadowNext s, s.dtlb.writeWritten (tlbEntryOut s)⟩, wiredNext s⟩ :
      TlbUnit) = _
    rw [hsh, hwr]

end Regs

end Core

end R9999
