import R9999.Mmu.Translation

/-!
# The TLB as a program sees it

The instructions that set up, write, read and probe the TLB, and the exceptions that leave an
address in its registers, as events that happen one after the other.  The hardware chooses the
entry that `TLBWR` writes and answers `TLBP`; `Allowed` says what it may choose and answer.
-/

namespace R9999

namespace Mmu

open Iss (numTlbEntries)

/-- What an instruction or an exception does. -/
inductive TlbEvent where
  /-- `MTC0`, or `DMTC0` if it is `wide`. -/
  | move (reg : BitVec 5) (data : BitVec 64) (wide : Bool)
  | probe (hit : Bool) (index : BitVec 6)
  | read
  | writeIndexed
  | writeRandom
  /-- An exception records an address that is not one of the TLB. -/
  | badAddr (addr : BitVec 64)
  /-- A TLB exception records its address. -/
  | save (addr : BitVec 64)
  deriving DecidableEq

namespace TlbRegs

variable (r : TlbRegs)

/-- The write of a CP0 register.  Those that are not of the TLB are left out. -/
def move (reg : BitVec 5) (data : BitVec 64) (wide : Bool) : TlbRegs :=
  if reg = 0 then r.write .index data
  else if reg = 2 then r.write .entryLo0 data
  else if reg = 3 then r.write .entryLo1 data
  else if reg = 4 then { r with ptebase := data.extractLsb' 23 9 }
  else if reg = 5 then r.write .pageMask data
  else if reg = 10 then r.write .entryHi data
  else if reg = 20 ∧ wide = true then { r with xptebase := data.extractLsb' 33 31 }
  else r

/-- The registers that `TLBR` loads. -/
def load (e : TlbStored) : TlbRegs :=
  { r with
    entryhiAsid := e.asid
    entryhiR := e.r
    entryhiVpn2 := e.vpn
    pagemask := e.pagemask
    entrylo0 := { e.page0 with pfn := e.page0.pfn.setWidth 24 }
    entrylo1 := { e.page1 with pfn := e.page1.pfn.setWidth 24 } }

/-- What was loaded is what is written back. -/
theorem load_staged (e : TlbStored) : (r.load e).staged = e := by
  have hpfn (v : BitVec 18) : (v.setWidth 24).setWidth 18 = v := by
    rw [BitVec.setWidth_setWidth_of_le _ (by decide), BitVec.setWidth_eq]
  simp only [load, staged, hpfn]

end TlbRegs

/-- The registers, the entries, and Wired. -/
structure TlbUnit extends Rtl where
  wired : BitVec 6 := 0

namespace TlbUnit

variable (u : TlbUnit)

/-- An event.  The number beside it is what Random is then. -/
def step (x : TlbEvent × BitVec 6) : TlbUnit :=
  match x.1 with
  | .move reg data wide =>
    { u with
      regs := u.regs.move reg data wide
      wired := if reg = 6 then data.setWidth 6 else u.wired }
  | .probe hit index => { u with regs := { u.regs with index := index, probeFailed := !hit } }
  | .read => { u with toRtl := u.toRtl.tlbr }
  | .writeIndexed => { u with toRtl := u.toRtl.writeEntry u.regs.index }
  | .writeRandom => { u with toRtl := u.toRtl.writeEntry x.2 }
  | .badAddr addr => { u with regs := { u.regs with badvaddr := addr } }
  | .save addr => { u with regs := u.regs.saveFault addr }

/-- The unit after some events. -/
def after (l : List (TlbEvent × BitVec 6)) : TlbUnit := l.foldl step u

/-- The index of the entry that an event writes. -/
def writes (x : TlbEvent × BitVec 6) : Option (BitVec 6) :=
  match x.1 with
  | .writeIndexed => some u.regs.index
  | .writeRandom => some x.2
  | _ => none

/-- What may happen: `TLBWI` and `TLBR` name an entry there is, `TLBWR` takes one that is not
wired, and `TLBP` leaves the lowest entry that matches. -/
def Allowed (x : TlbEvent × BitVec 6) : Prop :=
  match x.1 with
  | .probe _ _ => (u.step x).toRtl = u.toRtl.tlbp
  | .read | .writeIndexed => u.regs.index.toNat < numTlbEntries
  | .writeRandom => u.wired ≤ x.2 ∧ x.2.toNat < numTlbEntries
  | _ => True

/-- Each of the events may happen after those before it. -/
def Follows : TlbUnit → List (TlbEvent × BitVec 6) → Prop
  | _, [] => True
  | u, x :: l => u.Allowed x ∧ Follows (u.step x) l

/-- None of the events writes the entry. -/
def Spares (j : Fin numTlbEntries) : TlbUnit → List (TlbEvent × BitVec 6) → Prop
  | _, [] => True
  | u, x :: l => (∀ idx, u.writes x = some idx → idx.toNat ≠ j.val) ∧ Spares j (u.step x) l

variable {u} {x : TlbEvent × BitVec 6} {l m : List (TlbEvent × BitVec 6)} {idx : BitVec 6}
  {j : Fin numTlbEntries}

@[simp] theorem after_nil : u.after [] = u := rfl

@[simp] theorem after_cons : u.after (x :: l) = (u.step x).after l := rfl

theorem after_append : u.after (l ++ m) = (u.after l).after m := List.foldl_append

theorem follows_append : Follows u (l ++ m) ↔ Follows u l ∧ Follows (u.after l) m := by
  induction l generalizing u with
  | nil => simp [Follows]
  | cons x l ih =>
    rw [List.cons_append, Follows, Follows, ih, after_cons, and_assoc]

/-! ## Entries -/

/-- The entries after a write of one. -/
theorem writeEntry_tlb (t : Rtl) (idx : BitVec 6) (j : Fin numTlbEntries) :
    (t.writeEntry idx).tlb j = (if idx.toNat = j.val then t.regs.staged else t.tlb j) ∧
      (t.writeEntry idx).written j = (if idx.toNat = j.val then true else t.written j) := by
  rw [← update_slot t.tlb, ← update_slot t.written]
  unfold Rtl.writeEntry
  split <;> exact ⟨rfl, rfl⟩

theorem writeEntry_regs (t : Rtl) (idx : BitVec 6) : (t.writeEntry idx).regs = t.regs := by
  unfold Rtl.writeEntry
  split <;> rfl

/-- An event changes no entry but the one it writes. -/
theorem step_spares (h : ∀ idx, u.writes x = some idx → idx.toNat ≠ j.val) :
    (u.step x).tlb j = u.tlb j ∧ (u.step x).written j = u.written j := by
  obtain ⟨e, r⟩ := x
  cases e with
  | writeIndexed =>
    have hne := h u.regs.index rfl
    obtain ⟨h1, h2⟩ := writeEntry_tlb u.toRtl u.regs.index j
    rw [if_neg hne] at h1 h2
    exact ⟨h1, h2⟩
  | writeRandom =>
    have hne := h r rfl
    obtain ⟨h1, h2⟩ := writeEntry_tlb u.toRtl r j
    rw [if_neg hne] at h1 h2
    exact ⟨h1, h2⟩
  | _ => exact ⟨rfl, rfl⟩

/-- It writes that one with what the registers hold. -/
theorem step_writes (h : u.writes x = some idx) (hj : idx.toNat = j.val) :
    (u.step x).tlb j = u.regs.staged ∧ (u.step x).written j = true := by
  obtain ⟨e, r⟩ := x
  cases e with
  | writeIndexed =>
    obtain rfl : u.regs.index = idx := Option.some.inj h
    obtain ⟨h1, h2⟩ := writeEntry_tlb u.toRtl u.regs.index j
    rw [if_pos hj] at h1 h2
    exact ⟨h1, h2⟩
  | writeRandom =>
    obtain rfl : r = idx := Option.some.inj h
    obtain ⟨h1, h2⟩ := writeEntry_tlb u.toRtl r j
    rw [if_pos hj] at h1 h2
    exact ⟨h1, h2⟩
  | _ => cases h

/-- What may be written is one entry. -/
theorem writes_one (ha : u.Allowed x) (h : u.writes x = some idx) :
    ∃ j : Fin numTlbEntries, idx.toNat = j.val ∧ (u.step x).tlb j = u.regs.staged ∧
      ∀ m, m ≠ j → (u.step x).tlb m = u.tlb m := by
  have hlt : idx.toNat < numTlbEntries := by
    obtain ⟨e, r⟩ := x
    cases e with
    | writeIndexed =>
      obtain rfl : u.regs.index = idx := Option.some.inj h
      exact ha
    | writeRandom =>
      obtain rfl : r = idx := Option.some.inj h
      exact ha.2
    | _ => cases h
  refine ⟨⟨idx.toNat, hlt⟩, rfl, (step_writes h rfl).1, fun m hm => (step_spares ?_).1⟩
  rintro idx' hidx heq
  obtain rfl := Option.some.inj (h.symm.trans hidx)
  exact hm (Fin.ext heq.symm)

/-- `TLBWR` writes no entry below Wired. -/
theorem wired_kept {r : BitVec 6} (h : u.Allowed (.writeRandom, r)) (hj : j.val < u.wired.toNat) :
    (u.step (.writeRandom, r)).tlb j = u.tlb j := by
  refine (step_spares ?_).1
  intro idx hidx
  obtain rfl : r = idx := Option.some.inj hidx
  have hle : u.wired.toNat ≤ r.toNat := h.1
  omega

/-- Until an entry is written again, it keeps what it holds. -/
theorem after_spares (h : Spares j u l) : (u.after l).tlb j = u.tlb j := by
  induction l generalizing u with
  | nil => rfl
  | cons x l ih => exact (ih h.2).trans (step_spares h.1).1

/-- **`TLBR` restores what was written**, up to the bits that the TLB stores. -/
theorem read_restores {r : BitVec 6} (hw : u.writes x = some idx) (hj : idx.toNat = j.val)
    (hs : Spares j (u.step x) l) (hidx : ((u.step x).after l).regs.index = idx) :
    (((u.step x).after l).step (.read, r)).regs.staged = u.regs.staged := by
  have hnat : ((u.step x).after l).regs.index.toNat = j.val := by rw [hidx, hj]
  have hlt : ((u.step x).after l).regs.index.toNat < numTlbEntries := hnat ▸ j.isLt
  have hslot : (⟨((u.step x).after l).regs.index.toNat, hlt⟩ : Fin numTlbEntries) = j :=
    Fin.ext hnat
  have hread : (((u.step x).after l).step (.read, r)).regs =
      ((u.step x).after l).regs.load (((u.step x).after l).tlb j) := by
    show ((u.step x).after l).toRtl.tlbr.regs = _
    rw [Rtl.tlbr, dif_pos hlt, hslot]
    rfl
  rw [hread, TlbRegs.load_staged, after_spares hs, (step_writes hw hj).1]

end TlbUnit

/-! ## The probe -/

/-- What `TLBP` leaves. -/
theorem tlbp_eq (t : Rtl) :
    t.tlbp = { t with
      regs := { t.regs with
        index := matchIdx (t.search t.regs.probeVa)
        probeFailed := !(t.search t.regs.probeVa).isSome } } := by
  unfold Rtl.tlbp
  cases t.search t.regs.probeVa <;> rfl

/-- A probe may leave what the search finds. -/
theorem TlbUnit.probe_allowed {u : TlbUnit} {x : Bool × BitVec 6} {v : BitVec 6}
    (h : x = ((u.search u.regs.probeVa).isSome, matchIdx (u.search u.regs.probeVa))) :
    u.Allowed (.probe x.1 x.2, v) := by
  change { u.toRtl with regs := { u.regs with index := x.2, probeFailed := !x.1 } } = u.tlbp
  rw [tlbp_eq, h]

theorem matchIdx_lt (m : Option (Fin numTlbEntries)) : (matchIdx m).toNat < numTlbEntries := by
  cases m with
  | none => decide
  | some j =>
    have hj : (matchIdx (some j)).toNat = j.val := Nat.mod_eq_of_lt (j.isLt.trans (by decide))
    exact hj ▸ j.isLt

/-- The data TLB finds what `TLBP` is to find, if it holds the entries that are written. -/
theorem dtlb_probe {d : Dtlb} {t : Rtl} (hw : ∀ j, d.written j = t.written j)
    (ht : ∀ j, d.written j = true → d.tlb j = t.tlb j) (w : Option TlbData) :
    let d' := d.tick w ⟨t.regs.entryhiAsid, true, true, t.regs.probeVa⟩
    d'.hit = (t.search t.regs.probeVa).isSome ∧
      d'.hitIndex = matchIdx (t.search t.regs.probeVa) := by
  intro d'
  have hhits : d.hits ⟨t.regs.entryhiAsid, true, true, t.regs.probeVa⟩ =
      t.hits t.regs.probeVa := by
    funext j
    show (_ && _ && d.written j) = (_ && _ && t.written j)
    rw [← hw j]
    by_cases hj : d.written j = true
    · rw [ht j hj]
    · rw [Bool.not_eq_true] at hj
      rw [hj, Bool.and_false, Bool.and_false]
  constructor
  · show (true && (List.finRange numTlbEntries).any (d.hits _)) = _
    rw [hhits, Bool.true_and, Rtl.search, Bool.eq_iff_iff, List.find?_isSome, List.any_eq_true]
  · show d.hitIdx _ = _
    rw [Dtlb.hitIdx, hhits, Hw.findLowestSetBit_eq 3 _ (by decide), matchIdx, Rtl.search]
    cases (List.finRange numTlbEntries).find? (t.hits t.regs.probeVa) <;> rfl

end Mmu

end R9999
