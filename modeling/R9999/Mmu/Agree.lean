import R9999.Hw.Run
import R9999.Mmu.Lookup

/-!
# The interpreter and the RTL translate alike

Both are run side by side on what software does to the TLB and its registers and on
accesses in any mode.  They agree as long as no step reaches one of their differences: a
slot that was never written, which matches address 0 under ASID 0 in the interpreter, the
two kinds of address whose segment they decode differently, masks that stand for no page
size and frames that are not aligned to theirs, and the bits of EntryHi and PageMask that
only TLBP of the interpreter compares.
-/

namespace R9999

namespace Mmu

open Iss (State Cpr0 TlbOp MicroTlb numTlbEntries srErl)

/-- What software does to the TLB and its registers, and the accesses, each under a Status
word of its own. -/
inductive Event where
  | mtc0 (reg : StagingReg) (v : BitVec 64)
  | dmtc0 (reg : StagingReg) (v : BitVec 64)
  | tlbwi
  /-- TLBWR, at the index that Random has in both. -/
  | tlbwr (random : BitVec 6)
  | tlbr
  | tlbp
  | access (sr : BitVec 32) (vAddr : BitVec 64) (op : TlbOp)

/-- What an event shows to software. -/
inductive Seen where
  | nothing
  /-- Index after TLBP. -/
  | index (v : BitVec 32)
  | access (a : Access)
  deriving DecidableEq

/-- The interpreter, with its micro-TLB. -/
structure Golden where
  state : State
  utlb : MicroTlb

/-- An event in the interpreter. -/
def Golden.step (x : Golden) : Event → Seen × Golden
  | .mtc0 reg v =>
    (.nothing, { x with state := Iss.writeCpr0 x.state reg.num (Iss.mtc0Value reg.num v) })
  | .dmtc0 reg v => (.nothing, { x with state := Iss.writeCpr0 x.state reg.num v })
  | .tlbwi =>
    let r := Iss.tlbwi x.utlb x.state
    (.nothing, ⟨r.1, r.2⟩)
  | .tlbwr random =>
    let r := Iss.tlbwr x.utlb (x.state.setCpr0 Cpr0.random (random.setWidth 32))
    (.nothing, ⟨r.1, r.2⟩)
  | .tlbr => (.nothing, { x with state := Iss.tlbr x.state })
  | .tlbp => (.index ((Iss.tlbp x.state).cpr0 Cpr0.index), { x with state := Iss.tlbp x.state })
  | .access sr vAddr op =>
    let r := Iss.vaTranslate false x.utlb (underStatus x.state sr) vAddr op
    (.access (outcome r.1 r.2.1), ⟨r.2.1, r.2.2⟩)

/-- An event in the RTL. -/
def Rtl.step (t : Rtl) : Event → Seen × Rtl
  | .mtc0 reg v => (.nothing, { t with regs := t.regs.write reg v })
  | .dmtc0 reg v => (.nothing, { t with regs := t.regs.write reg v })
  | .tlbwi => (.nothing, t.writeEntry t.regs.index)
  | .tlbwr random => (.nothing, t.writeEntry random)
  | .tlbr => (.nothing, t.tlbr)
  | .tlbp => (.index t.tlbp.regs.indexValue, t.tlbp)
  | .access sr vAddr op => (.access (t.access sr vAddr op).1, (t.access sr vAddr op).2)

/-- The two side by side. -/
def pairNext (x : Golden × Rtl) (e : Event) : Golden × Rtl := ((x.1.step e).2, (x.2.step e).2)

/-- The two keep the same entries and registers, and the micro-TLB agrees with the TLB. -/
structure Paired (x : Golden × Rtl) : Prop where
  same : Matches x.1.state x.2
  utlb : MicroTlb.Agrees x.1.utlb x.1.state.tlb

/-- The accesses of which the RTL raises no privilege or range error. -/
def NoAddressError : Event → Prop
  | .access sr vAddr op =>
    (mipsseg sr (srHas sr srErl && op != .fetch) vAddr).badPerms = false
  | _ => True

/-- The step reaches none of the differences. -/
def Regular (x : Golden × Rtl) : Event → Prop
  | .tlbr => x.2.regs.index.toNat < numTlbEntries
  | .tlbp => ProbesOk x.1.state x.2
  | .access sr vAddr op => AccessOk x.1.state x.2 sr vAddr op
  | _ => True

/-- A slot that was never written matches in neither. -/
def BlankMisses (x : Golden × Rtl) : Event → Prop
  | .tlbp => ∀ i, x.2.written i = false →
      (x.1.state.tlb i).probeHits (x.1.state.cpr0_64 Cpr0.entryHi) = false ∧
        x.2.hits x.2.regs.probeVa i = false
  | .access sr vAddr _ => Iss.unmapped (effective sr vAddr) = none →
      ∀ i, x.2.written i = false →
        (x.1.state.tlb i).hits (effective sr vAddr)
            (x.1.state.cpr0_64 Cpr0.entryHi &&& 0xff) = false ∧
          x.2.hits (effective sr vAddr) i = false
  | _ => True

/-- The two show the same, and no slot that was never written has a part in it. -/
def Agrees (x : Golden × Rtl) (e : Event) : Prop :=
  (x.1.step e).1 = (x.2.step e).1 ∧ BlankMisses x e

/-- What the search for an address finds under `AccessOk` has been written. -/
theorem Paired.access_blank {x : Golden × Rtl} (h : Paired x) {sr : BitVec 32}
    {vAddr : BitVec 64} {op : TlbOp} (hok : AccessOk x.1.state x.2 sr vAddr op) :
    BlankMisses x (.access sr vAddr op) := by
  intro hmapped i hi
  have hkey := (hok.2.2 hmapped).2.1 ⟨i, hi⟩
  refine ⟨h.same.blank_miss hkey hi, ?_⟩
  rw [Rtl.hits, hi, Bool.and_false]

theorem Paired.tlbp_blank {x : Golden × Rtl} (hok : ProbesOk x.1.state x.2) :
    BlankMisses x .tlbp := by
  intro i hi
  have hmiss := mt (fun hfound => (hok i hfound).1) (by simp [hi])
  rw [not_or, Bool.not_eq_true, Bool.not_eq_true] at hmiss
  exact hmiss

/-- One step outside the differences shows the same in both, and leaves both with the same
entries and registers. -/
theorem Paired.step {x : Golden × Rtl} (h : Paired x) (e : Event) (hperm : NoAddressError e)
    (hreg : Regular x e) : Agrees x e ∧ Paired (pairNext x e) := by
  obtain ⟨hsame, hutlb⟩ := h
  cases e with
  | mtc0 reg v =>
    refine ⟨⟨rfl, trivial⟩, hsame.mtc0 reg v, ?_⟩
    show MicroTlb.Agrees x.1.utlb (Iss.writeCpr0 _ _ _).tlb
    rw [writeCpr0_staging]
    exact hutlb
  | dmtc0 reg v =>
    refine ⟨⟨rfl, trivial⟩, hsame.dmtc0 reg v, ?_⟩
    show MicroTlb.Agrees x.1.utlb (Iss.writeCpr0 _ _ _).tlb
    rw [writeCpr0_staging]
    exact hutlb
  | tlbwi =>
    exact ⟨⟨rfl, trivial⟩, hsame.tlbwi x.1.utlb, Iss.utlbFlush_agrees x.1.utlb _⟩
  | tlbwr random =>
    exact ⟨⟨rfl, trivial⟩, hsame.tlbwr x.1.utlb random, Iss.utlbFlush_agrees x.1.utlb _⟩
  | tlbr =>
    refine ⟨⟨rfl, trivial⟩, hsame.tlbr hreg, ?_⟩
    show MicroTlb.Agrees x.1.utlb (Iss.tlbr x.1.state).tlb
    have hkeep : (Iss.tlbr x.1.state).tlb = x.1.state.tlb := by
      unfold Iss.tlbr
      dsimp only
      split <;> rfl
    rw [hkeep]
    exact hutlb
  | tlbp =>
    obtain ⟨hnext, hindex⟩ := hsame.tlbp hreg
    refine ⟨⟨congrArg Seen.index hindex, Paired.tlbp_blank hreg⟩, hnext, ?_⟩
    show MicroTlb.Agrees x.1.utlb (Iss.tlbp x.1.state).tlb
    have hkeep : (Iss.tlbp x.1.state).tlb = x.1.state.tlb := by
      unfold Iss.tlbp
      dsimp only
      split <;> rfl
    rw [hkeep]
    exact hutlb
  | access sr vAddr op =>
    obtain ⟨hpa, hstate, hagree⟩ :=
      Iss.vaTranslate_transparent (g := x.1.utlb) (s := underStatus x.1.state sr) hutlb
        x.1.utlb vAddr op
    obtain ⟨hout, hnext⟩ := hsame.access_agrees x.1.utlb hperm hreg
    rw [← hpa, ← hstate] at hout
    rw [← hstate] at hnext
    exact ⟨⟨congrArg Seen.access hout, Paired.access_blank ⟨hsame, hutlb⟩ hreg⟩, hnext, hagree⟩

/-- The interpreter and the RTL agree on address translation: in every run that reaches
none of the differences, from states with the same entries and registers, every access
comes to the same physical address or the same exception, with the same vector, BadVAddr,
Context, XContext and EntryHi, TLBP finds the same index or fails in both, and a slot that
was never written matches in neither. -/
theorem translations_agree {x : Golden × Rtl} (h : Paired x) {es : List Event}
    (hrun : Hw.RunOk pairNext (fun x e => NoAddressError e ∧ Regular x e) x es) :
    Hw.RunOk pairNext Agrees x es :=
  Hw.RunOk.imp (fun _ e hx hP => (hx.step e hP.1 hP.2).2)
    (fun _ e hx hP => (hx.step e hP.1 hP.2).1) h hrun

instance (e : Event) : Decidable (NoAddressError e) :=
  match e with
  | .access _ _ _ => inferInstanceAs (Decidable (_ = _))
  | .mtc0 .. | .dmtc0 .. | .tlbwi | .tlbwr _ | .tlbr | .tlbp =>
    inferInstanceAs (Decidable True)

instance (x : Golden × Rtl) (e : Event) : Decidable (Regular x e) :=
  match e with
  | .tlbr => inferInstanceAs (Decidable (_ < _))
  | .tlbp => inferInstanceAs (Decidable (ProbesOk _ _))
  | .access _ _ _ => inferInstanceAs (Decidable (AccessOk _ _ _ _ _))
  | .mtc0 .. | .dmtc0 .. | .tlbwi | .tlbwr _ => inferInstanceAs (Decidable True)

/-- Power-up. -/
def powerUp : Golden × Rtl := (⟨Iss.initState fun _ => 0, Iss.coldUtlb⟩, {})

theorem powerUp_paired : Paired powerUp where
  same :=
    { mirror := rfl
      tlb := fun _ => (by decide : ({} : TlbStored) = .of {})
      blank := fun _ _ => rfl
      staged := by decide
      index := by decide
      recording := ⟨by decide, by decide, by decide⟩ }
  utlb := Iss.coldUtlb_agrees _

/-- A page is mapped at ASID 5, and used, looked for and left. -/
def mapAndUse : List Event :=
  [.mtc0 .entryHi 0x402005, .mtc0 .entryLo0 0x401e, .mtc0 .entryLo1 0x405a, .mtc0 .pageMask 0,
    .mtc0 .index 3, .tlbwi, .access 0 0x402123 .load, .tlbp, .access 0 0x403000 .store,
    .access 0 0x800000 .fetch, .tlbr]

theorem translations_agree_mapAndUse : Hw.RunOk pairNext Agrees powerUp mapAndUse :=
  translations_agree powerUp_paired (by decide +kernel)

/-- At power-up a load of address 0 matches the entries that were never written in the
interpreter, which raises Invalid, and nothing in the RTL, which raises Refill. -/
theorem blank_slot_matches :
    ¬ ∀ es : List Event, Hw.RunOk pairNext (fun _ e => NoAddressError e) powerUp es →
      Hw.RunOk pairNext Agrees powerUp es := by
  intro hall
  have hagree := (hall [.access 0 0 .load] (by decide +kernel)).1.1
  revert hagree
  decide +kernel

end Mmu

end R9999
