import R9999.Core.Tlb

/-!
# The order of the TLB instructions

An operation that uses the TLB is executed only once it is the oldest, or in the slot of a
branch that has completed, and then it retires.  So there is never more than one under way, no
CP0 write is outstanding while it is, and what has been done is what has retired, but for it.
-/

namespace R9999

namespace Core

open Mmu (TlbEvent)

theorem Op.moves_jumps {op : Op} (h : op.moves = true) : op.jumps = false := by
  revert h
  cases op <;> simp [moves, jumps]

/-- An operation that uses the TLB is executed behind a head that takes an exception or is
itself thrown away. -/
def strayTlbOp (s : State) (i : Input) : Bool :=
  (starting s i).any fun x =>
    x.2.uop.op.usesTlb && !decide (x.1 = 0) &&
      !(decide (s.regs.state = .active) && s.rob[0]?.any fun b => !decide (b.uop.op = .ii))

/-- The operation that uses the TLB and has been executed. -/
def underway (s : State) : Option Entry := s.rob.find? fun e => e.uop.op.usesTlb && e.issued

/-- What it has done. -/
def pending (s : State) : List TlbEvent :=
  match underway s with
  | some e => e.uop.op.tlbEvent.toList
  | none => []

/-- The registers of an exception are saved in `WRITE_EPC`. -/
def Saving (s : State) : Prop :=
  s.regs.saveToTlbRegs = true → s.regs.state = .writeEpc ∧ s.regs.hasBadvaddr = true

/-! ## The registers of an exception -/

section Saving

variable {p : Params} {s : State} {i : Input}

@[simp] theorem tick_saveToTlbRegs : (tick s i).n.saveToTlbRegs = false := rfl

@[simp] theorem tick_wrBadvaddr : (tick s i).wrBadvaddr = false := rfl

@[simp] theorem accumulate_wrBadvaddr (e : Entry) (es : List Entry) (c : Comb) :
    (accumulate e es c).wrBadvaddr = c.wrBadvaddr := by
  obtain ⟨w, a, f, h⟩ := accumulate_frame e es c
  rw [h]

/-- What an exception saves is its address. -/
def ExcInfo.Saves (x : ExcInfo) : Prop := x.saveToTlbRegs = true → x.hasBadvaddr = true

theorem excInfo_saves (e : Entry) : (excInfo s i e).Saves := by
  unfold excInfo
  dsimp only
  -- one case for each of the causes
  repeat' refine iteInduction (motive := ExcInfo.Saves) (fun _ => ?_) fun _ => ?_
  all_goals simp [ExcInfo.Saves]

/-- Only an exception touches what is recorded of it. -/
theorem record_quiet (hf : Fits s) (ha : s.regs.state ≠ .archFault)
    (hw : s.regs.state ≠ .writeEpc) :
    (comb p s i).n.saveToTlbRegs = false ∧ (comb p s i).wrBadvaddr = false := by
  have of {c : Comb} (hcomb : comb p s i = finish s c)
      (hc : c.n.saveToTlbRegs = false ∧ c.wrBadvaddr = false) :
      (comb p s i).n.saveToTlbRegs = false ∧ (comb p s i).wrBadvaddr = false := by
    rw [hcomb]
    exact hc
  have alone {w : FsmState}
      (hs : s.regs.state = .allocForSerialize ∧ w = .waitForSerializeAndRestart ∨
        s.regs.state = .serializeInFaultedDelaySlot ∧ w = .waitForSerializeInFaultedDelaySlot) :
      (comb p s i).n.saveToTlbRegs = false ∧ (comb p s i).wrBadvaddr = false := by
    obtain hc | ⟨-, hc⟩ := alone_turn (p := p) (i := i) hs <;> exact of hc ⟨rfl, rfl⟩
  cases hs : s.regs.state with
  | active =>
    obtain ⟨c, hturn, hcomb⟩ := comb_active (p := p) (i := i) hs
    have hal : (allocate p s i (tick s i)).n.saveToTlbRegs = false ∧
        (allocate p s i (tick s i)).wrBadvaddr = false := by
      obtain ⟨-, h⟩ | ⟨-, -, h⟩ | ⟨-, h⟩ :=
        allocate_cases (p := p) (s := s) (i := i) (tick s i) <;> simp [h]
    refine of hcomb ?_
    cases hturn with
    | detour => exact ⟨rfl, rfl⟩
    | fault e es hrob hdone hfault harch => simp [faultedHead, harch]
    | restart e es hrob hdone hfault harch => simp [faultedHead, harch]
    | retire => simp [hal]
    | wait => exact hal
  | drain =>
    obtain ⟨c, hturn, hcomb⟩ := comb_drain (p := p) (i := i) hs
    refine of hcomb ?_
    cases hturn <;> simp
  | archFault => exact absurd hs ha
  | writeEpc => exact absurd hs hw
  | allocForSerialize => exact alone (.inl ⟨hs, rfl⟩)
  | serializeInFaultedDelaySlot => exact alone (.inr ⟨hs, rfl⟩)
  | waitForSerializeAndRestart =>
    simp only [Fits, hs] at hf
    obtain ⟨e, hrob, -⟩ := hf
    have hturn := serial_turn (p := p) hrob (tick s i)
    refine of (c := waitForSerialize p s (tick s i)) (by simp [comb, arm, hs]) ?_
    generalize waitForSerialize p s (tick s i) = c at hturn
    cases hturn with
    | wait => exact ⟨rfl, rfl⟩
    | flush =>
      simp only [requestFlush]
      repeat' split
      all_goals exact ⟨rfl, rfl⟩
    | restart => exact ⟨rfl, rfl⟩
    | resume => exact ⟨rfl, rfl⟩
  | cacheFlush =>
    simp only [Fits, hs] at hf
    obtain ⟨e, hrob, -⟩ := hf
    have hturn := flush_turn hrob (tick s i)
    refine of (c := cacheFlush s (tick s i)) (by simp [comb, arm, hs]) ?_
    generalize cacheFlush s (tick s i) = c at hturn
    cases hturn with
    | wait => exact ⟨rfl, rfl⟩
    | restart => exact ⟨rfl, rfl⟩
    | resume hall hack n hn => simp [hn, restartAfter]
  | waitForSerializeInFaultedDelaySlot =>
    refine of (c := waitInSlot s (tick s i)) (by simp [comb, arm, hs]) ?_
    simp only [waitInSlot]
    repeat' split
    all_goals exact ⟨rfl, rfl⟩
  | rat =>
    refine of (comb_rat hs) ?_
    simp only [rat]
    split <;> exact ⟨rfl, rfl⟩
  | exceptionDrain =>
    refine of (c := exceptionDrain i (tick s i)) (by simp [comb, arm, hs]) ?_
    simp only [exceptionDrain]
    split <;> exact ⟨rfl, rfl⟩
  | flushForHalt =>
    refine of (c := flushForHalt (tick s i)) (by simp [comb, arm, hs]) ?_
    simp only [flushForHalt]
    split <;> exact ⟨rfl, rfl⟩
  | halt =>
    refine of (c := halt i (tick s i)) (by simp [comb, arm, hs]) ?_
    simp only [halt]
    split <;> exact ⟨rfl, rfl⟩
  | haltWaitForRestart =>
    refine of (c := haltWaitForRestart (tick s i)) (by simp [comb, arm, hs]) ?_
    simp only [haltWaitForRestart]
    split <;> exact ⟨rfl, rfl⟩
  | dead => exact of (c := tick s i) (by simp [comb, arm, hs]) ⟨rfl, rfl⟩

theorem wrBadvaddr_eq (hf : Fits s) :
    (comb p s i).wrBadvaddr = (decide (s.regs.state = .writeEpc) && s.regs.hasBadvaddr) := by
  by_cases hw : s.regs.state = .writeEpc
  · have hcomb : comb p s i = finish s (writeEpc s i (tick s i)) := by simp [comb, arm, hw]
    rw [hcomb, decide_eq_true hw, Bool.true_and]
    rfl
  · rw [decide_eq_false hw, Bool.false_and]
    by_cases ha : s.regs.state = .archFault
    · simp only [comb_archFault ha, finish, archFault]
      split
      · rfl
      · dsimp only
        split <;> rfl
    · exact (record_quiet hf ha hw).2

theorem saving_next (hf : Fits s) : Saving (next p s i) := by
  intro hsave
  by_cases ha : s.regs.state = .archFault
  · have hfits := hf
    simp only [Fits, ha] at hfits
    obtain ⟨e, es, hrob, -⟩ := hfits
    have hcomb := comb_archFault (p := p) (i := i) ha
    simp only [archFault, hrob] at hcomb
    have hsave' : (excInfo s i e).saveToTlbRegs = true := by
      simpa [next, hcomb, finish] using hsave
    constructor
    · simp [next, hcomb, finish]
    · simpa [next, hcomb, finish] using excInfo_saves e hsave'
  · exfalso
    have hn : (comb p s i).n.saveToTlbRegs = true := hsave
    by_cases hw : s.regs.state = .writeEpc
    · have hcomb : comb p s i = finish s (writeEpc s i (tick s i)) := by simp [comb, arm, hw]
      rw [hcomb] at hn
      cases hn
    · exact absurd ((record_quiet hf ha hw).1.symm.trans hn) (by decide)

end Saving

namespace Entry

variable {s : State} {i : Input} {k : Nat} {e : Entry}

/-- What uses the TLB restarts the fetch. -/
def Refetches (e : Entry) : Prop :=
  e.uop.op.usesTlb = true → e.complete = true → e.faulted = true

theorem alloc_refetches (u : Uop) (d : Bool) (t : Tag) : (alloc u d t).Refetches := by
  intro hu hc
  change u.op.usesTlb = true at hu
  change u.op.fold = true at hc
  simp [(Op.usesTlb_spec hu).2.2.2.2.1] at hc

/-- The other pipes do not complete it. -/
theorem Refetches.other {f : Entry} (hop : f.uop = e.uop) (hpipe : e.uop.isInt = false) :
    f.Refetches := by
  intro hu
  rw [hop] at hu
  have hint := e.uop.ok.now (Op.usesTlb_spec hu).1
  simp [hpipe] at hint

theorem Refetches.next (h : e.Refetches) : (e.next s i k).Refetches := by
  refine next_induction h (fun f r h => ?_) (fun f r h => ?_) (fun f r h => ?_)
    (fun _ h => h) (fun _ _ h => h)
  · unfold Entry.intDone
    split
    · intro hu _
      change f.uop.op.usesTlb = true at hu
      change f.faultsWith r = true
      revert hu
      unfold faultsWith
      cases f.uop.op <;> simp [Op.usesTlb, Op.faults]
    · exact h
  · unfold Entry.fpDone
    split
    next hc =>
      rw [Bool.and_eq_true] at hc
      refine Refetches.other (e := f) rfl ?_
      by_contra hint
      have := (f.uop.ok.pipeInt (by simpa using hint)).2
      simp [hc.1] at this
    next => exact h
  · unfold Entry.memDone
    split
    next hc =>
      rw [Bool.and_eq_true] at hc
      refine Refetches.other (e := f) rfl ?_
      by_contra hint
      have := (f.uop.ok.pipeInt (by simpa using hint)).1
      simp [hc.1] at this
    next => exact h

end Entry

/-- What holds of the TLB operations in every cycle. -/
structure TlbPlaced (p : Params) (s : Cp0State) : Prop where
  cp0 : Cp0Inv p s
  probes : ProbeInv p s
  saving : Saving s.core
  refetches : ∀ e ∈ s.core.rob, e.Refetches
  executed : ∀ k e, s.core.rob[k]? = some e → e.uop.op.usesTlb = true → e.issued = true →
    s.retireValid = false ∧ writers (s.core.rob.take k) = 0 ∧ TlbSeat s.core k
  /-- When an exception is recorded, no CP0 write is outstanding. -/
  drained : s.core.regs.state = .writeEpc → s.retireValid = false

/-! ## One at a time -/

section Seats

variable {s : State} {k k' : Nat} {e e' : Entry}

theorem Entry.usesTlb_noSlot (hu : e.uop.op.usesTlb = true) : e.uop.hasDelaySlot = false := by
  by_contra hd
  have hj := (e.uop.ok.branch (by simpa using hd)).2
  simp [(Op.usesTlb_spec hu).2.1] at hj

/-- The head is not a branch whose slot such an operation could be in. -/
theorem seat_ne_one (he : s.rob[0]? = some e) (hu : e.uop.op.usesTlb = true)
    (h : TlbSeat s k) : k = 0 := by
  cases h with
  | head hk => exact hk
  | drain hk => exact hk
  | slot b _ hb hmis =>
    obtain rfl := Option.some.inj (hb.symm.trans he)
    exact absurd hmis.slot (by simp [Entry.usesTlb_noSlot hu])

theorem seat_state (h : TlbSeat s k) : s.regs.state = .active ∨ s.regs.state = .drain := by
  cases h with
  | head _ hs => exact .inl hs
  | drain _ hs => exact .inr hs
  | slot _ _ _ _ _ _ hs => exact .inl hs

theorem seat_unique (h : TlbSeat s k) (he : s.rob[k]? = some e) (hu : e.uop.op.usesTlb = true)
    (h' : TlbSeat s k') (he' : s.rob[k']? = some e') (hu' : e'.uop.op.usesTlb = true) :
    k = k' := by
  have hle (j : Nat) (hj : TlbSeat s j) : j = 0 ∨ j = 1 := by
    cases hj with
    | head hk => exact .inl hk
    | drain hk => exact .inl hk
    | slot b hk => exact .inr hk
  obtain rfl | rfl := hle k h
  · exact (seat_ne_one he hu h').symm
  · obtain rfl | rfl := hle k' h'
    · exact seat_ne_one he' hu' h
    · rfl

theorem underway_eq (h : TlbSeat s k) (he : s.rob[k]? = some e) (hu : e.uop.op.usesTlb = true)
    (hi : e.issued = true) : underway s = some e := by
  have head (hk : k = 0) : underway s = some e := by
    obtain ⟨es, hrob⟩ := rob_head (hk ▸ he)
    simp [underway, hrob, hu, hi]
  cases h with
  | head hk => exact head hk
  | drain hk => exact head hk
  | slot b hk hb hmis =>
    obtain ⟨bs, hrob⟩ := rob_head hb
    have hb' : b.uop.op.usesTlb = false := by
      by_contra hbu
      exact absurd hmis.slot (by simp [Entry.usesTlb_noSlot (by simpa using hbu)])
    have hhead : bs.head? = some e := by
      simpa [hk, hrob, List.head?_eq_getElem?] using he
    obtain ⟨es, rfl⟩ := List.head?_eq_some_iff.mp hhead
    simp [underway, hrob, hb', hu, hi]

theorem underway_spec (h : underway s = some e) :
    ∃ k : Nat, s.rob[k]? = some e ∧ e.uop.op.usesTlb = true ∧ e.issued = true := by
  have hp := List.find?_some h
  rw [Bool.and_eq_true] at hp
  obtain ⟨k, hk⟩ := List.mem_iff_getElem?.mp (List.mem_of_find?_eq_some h)
  exact ⟨k, hk, hp⟩

theorem underway_none
    (h : ∀ (k : Nat) (e : Entry), s.rob[k]? = some e → e.uop.op.usesTlb = true →
      e.issued = false) : underway s = none := by
  cases hw : underway s with
  | none => rfl
  | some e =>
    obtain ⟨k, he, hu, hi⟩ := underway_spec hw
    exact absurd (h k e he hu) (by simp [hi])

end Seats

section Step

variable {p : Params} {s : Cp0State} {i : Cp0Input} {k : Nat} {e : Entry}

/-- Where an operation that uses the TLB is executed. -/
theorem seat_start (hno : strayTlbOp s.core (fed p s i) = false)
    (hst : starting s.core (fed p s i) = some (k, e)) (hu : e.uop.op.usesTlb = true) :
    TlbSeat s.core k :=
  seat_of_start hst hu (stray_spec (X := fun e => e.uop.op.usesTlb) hno hst hu)

theorem strayTlbr_of (hno : strayTlbOp s.core (fed p s i) = false) :
    strayTlbr s.core (fed p s i) = false := by
  unfold strayTlbOp at hno
  unfold strayTlbr
  cases hst : starting s.core (fed p s i) with
  | none => rfl
  | some x =>
    rw [hst] at hno
    by_cases hop : x.2.uop.op = .tlbr
    · simpa [hop, Op.usesTlb] using hno
    · simp [hop]

/-- When an operation that uses the TLB is executed, none is under way and no CP0 write is
outstanding. -/
theorem start_alone (h : TlbPlaced p s) (hno : strayTlbOp s.core (fed p s i) = false)
    (hst : starting s.core (fed p s i) = some (k, e)) (hu : e.uop.op.usesTlb = true) :
    underway s.core = none ∧ s.retireValid = false := by
  have hseat := seat_start hno hst hu
  obtain ⟨-, he, hm⟩ := starting_eq_some.mp hst
  refine ⟨?_, (started_gate h.cp0 hst (Op.usesTlb_spec hu).2.2.2.1 (.inr (usesTlb_oldest hu))).2⟩
  refine underway_none ?_
  intro k' e' he' hu'
  by_contra hi
  obtain ⟨-, -, hseat'⟩ := h.executed k' e' he' hu' (by simpa using hi)
  obtain rfl := seat_unique hseat he hu hseat' he' hu'
  obtain rfl := Option.some.inj (he.symm.trans he')
  simp [mayStart, hi] at hm

/-- An operation that uses the TLB has completed only if it was executed, and restarts the
fetch. -/
theorem usesTlb_done (h : TlbPlaced p s) (he : e ∈ s.core.rob) (hu : e.uop.op.usesTlb = true)
    (hd : e.done = true) : e.issued = true ∧ e.faulted = true := by
  obtain ⟨hnow, -, -, -, hfold, -⟩ := Op.usesTlb_spec hu
  rw [Entry.done, Bool.and_eq_true] at hd
  exact ⟨((h.cp0.sound e he).ran (e.uop.ok.now hnow) hd.2).resolve_right (by simp [hfold]),
    h.refetches e he hu hd.2⟩

/-- What is under way in the next cycle, if it stays. -/
theorem underway_stays (h : TlbPlaced p s) (he : s.core.rob[k]? = some e)
    (hu : e.uop.op.usesTlb = true) (hseat : TlbSeat s.core k)
    (hi : (e.next s.core (fed p s i) k).issued = true)
    (hret : k = 0 → (comb p s.core (fed p s i)).retire = false) :
    underway (cp0Next p s i).core = some (e.next s.core (fed p s i) k) := by
  have hmem := List.mem_of_getElem? he
  obtain ⟨hclr, hl⟩ := usesTlb_stays (i := i) h.cp0 he hu
    (fun hd => (usesTlb_done h hmem hu hd).2) hseat hret
  obtain ⟨j, hj⟩ := Nat.exists_eq_add_of_le hl
  have hlt := (List.getElem?_eq_some_iff.mp he).1
  have hnext : (next p s.core (fed p s i)).rob[j]? =
      some (e.next s.core (fed p s i) k) := by
    rw [rob_next hclr, List.getElem?_append_left (by simp; omega), List.getElem?_drop, ← hj,
      progress_getElem?, he]
    rfl
  exact underway_eq (seat_kept h.cp0.sane.rob h.cp0.sound he hu hseat hj.symm) hnext
    (by simpa using hu) hi

/-- None is, if each one that was executed leaves. -/
theorem underway_ends (h : TlbPlaced p s)
    (hst : ∀ k e, starting s.core (fed p s i) = some (k, e) → e.uop.op.usesTlb = false)
    (hleft : ∀ (k : Nat) (e : Entry), s.core.rob[k]? = some e → e.uop.op.usesTlb = true →
      e.issued = true → k < leaving (comb p s.core (fed p s i))) :
    underway (cp0Next p s i).core = none := by
  refine underway_none ?_
  intro k e' he' hu
  by_contra hi
  rw [Bool.not_eq_false] at hi
  obtain ⟨-, ⟨e, he, rfl⟩ | ⟨-, hnew⟩⟩ := next_getElem? h.cp0.sane.rob h.cp0.sane.fits he'
  · rw [Entry.next_uop] at hu
    obtain ⟨hs, -⟩ | ⟨-, hiss, -⟩ := issued_next he hi
    · exact absurd (hst _ e hs) (by simp [hu])
    · have := hleft _ e he hu hiss
      omega
  · simp [alloc_not_issued hnew] at hi

/-! ## What retires -/

/-- Only the head can be one that does something to the TLB. -/
theorem retire_head (h : TlbPlaced p s) (hret : (comb p s.core (fed p s i)).retire = true) :
    ∃ e es, s.core.rob = e :: es ∧ e.done = true ∧
      retires s.core (comb p s.core (fed p s i)) = e.tlbEvent.toList ∧
      wrTlbp s.core (comb p s.core (fed p s i)) =
        (if e.uop.op = .tlbp then some (e.tlbHit, e.tlbIndex) else none) ∧
      (e.uop.op.usesTlb = true → leaving (comb p s.core (fed p s i)) = 1) := by
  have hexit := exit_cases (p := p) (i := fed p s i) h.cp0.sane.rob h.cp0.sane.fits
  cases hexit with
  | none _ hr => exact absurd hret (by simp [hr])
  | fault _ _ hr => exact absurd hret (by simp [hr])
  | one e es hrob hdone _ _ hl hr h2 =>
    refine ⟨e, es, hrob, hdone, ?_, ?_, fun _ => hl⟩
    · simp only [retires, retiring, hr, h2, hrob, if_true, Bool.false_eq_true, if_false]
      cases he : e.tlbEvent <;> simp [he]
    · by_cases hop : e.uop.op = .tlbp <;> simp [wrTlbp, hr, h2, hrob, hop]
  | two e f es hrob hdone hdone2 hfault hfault2 hplain _ _ hr h2 =>
    have quiet {g : Entry} (hg : g ∈ s.core.rob) (hd : g.done = true) (hf : g.faulted = false) :
        g.uop.op.usesTlb = false := by
      by_contra hu
      have := (usesTlb_done h hg (by simpa using hu) hd).2
      simp [hf] at this
    have hf : f.tlbEvent = none := by
      simp [Entry.tlbEvent, quiet (by simp [hrob]) hdone2 hfault2, hplain.1]
    have hfp : f.uop.op ≠ .tlbp := by
      intro hop
      simp [hop, Op.isCp0Wr] at hplain
    have hu := quiet (g := e) (by simp [hrob]) hdone hfault
    refine ⟨e, f :: es, hrob, hdone, ?_, ?_, fun hu' => absurd hu' (by simp [hu])⟩
    · simp only [retires, retiring, hr, h2, hrob, if_true]
      cases he : e.tlbEvent <;> simp [he, hf]
    · by_cases hop : e.uop.op = .tlbp <;> simp [wrTlbp, hr, h2, hrob, hop, hfp]

/-- What the instruction that retires does, and what it leaves to the next cycle. -/
inductive Retires (p : Params) (s : Cp0State) (i : Cp0Input) : Prop where
  | none (hr : retires s.core (comb p s.core (fed p s i)) = [])
      (hp : wrTlbp s.core (comb p s.core (fed p s i)) = none)
      (hc : commits (cp0Next p s i) = [])
  | use (e : Entry) (es : List Entry) (hrob : s.core.rob = e :: es) (hdone : e.done = true)
      (hu : e.uop.op.usesTlb = true) (hl : leaving (comb p s.core (fed p s i)) = 1)
      (hr : retires s.core (comb p s.core (fed p s i)) = e.uop.op.tlbEvent.toList)
      (hp : wrTlbp s.core (comb p s.core (fed p s i)) = none)
      (hc : commits (cp0Next p s i) = [])
  | probe (e : Entry) (es : List Entry) (hrob : s.core.rob = e :: es) (hdone : e.done = true)
      (hop : e.uop.op = .tlbp)
      (hr : retires s.core (comb p s.core (fed p s i)) = [.probe e.tlbHit e.tlbIndex])
      (hp : wrTlbp s.core (comb p s.core (fed p s i)) = some (e.tlbHit, e.tlbIndex))
      (hc : commits (cp0Next p s i) = [])
  | move (e : Entry) (es : List Entry) (hrob : s.core.rob = e :: es) (hdone : e.done = true)
      (hm : e.uop.op.moves = true)
      (hr : retires s.core (comb p s.core (fed p s i)) = [(Cp0Write.move e.staged).event])
      (hp : wrTlbp s.core (comb p s.core (fed p s i)) = none)
      (hc : commits (cp0Next p s i) = [.move e.staged])

theorem retires_cases (h : TlbPlaced p s) : Retires p s i := by
  have hcommits := commits_next (i := i) h.cp0
  cases hret : (comb p s.core (fed p s i)).retire with
  | false =>
    have h2 : (comb p s.core (fed p s i)).retireTwo = false := by
      have hexit := exit_cases (p := p) (i := fed p s i) h.cp0.sane.rob h.cp0.sane.fits
      cases hexit <;> simp_all
    refine .none ?_ ?_ ?_
    · simp [retires, retiring, hret]
    · simp [wrTlbp, hret, h2]
    · rw [hcommits]
      simp [retiresWriter, hret]
  | true =>
    obtain ⟨e, es, hrob, hdone, hr, hp, hl⟩ := retire_head h hret
    have hwr : retiresWriter s.core (comb p s.core (fed p s i)) = e.uop.op.isCp0Wr := by
      simp [retiresWriter, hret, hrob]
    rw [hwr] at hcommits
    simp only [hrob, List.getElem?_cons_zero, Option.any_some, Option.toList_some, List.map_cons,
      List.map_nil] at hcommits
    by_cases hu : e.uop.op.usesTlb = true
    · obtain ⟨-, -, -, -, -, hm, hop⟩ := Op.usesTlb_spec hu
      refine .use e es hrob hdone hu (hl hu) ?_ ?_ ?_
      · rw [hr, Entry.tlbEvent, if_pos hu]
      · rw [hp, if_neg hop]
      · rw [hcommits, hm, Bool.and_false, if_neg Bool.false_ne_true]
    · by_cases hw : e.uop.op.isCp0Wr = true
      · have hev : e.tlbEvent = some e.cp0Write.event := by
          rw [Entry.tlbEvent, if_neg hu, if_pos hw]
        by_cases hop : e.uop.op = .tlbp
        · have hm : e.uop.op.moves = false := by rw [hop]; rfl
          refine .probe e es hrob hdone hop ?_ ?_ ?_
          · rw [hr, hev, Entry.cp0Write, if_pos hop]
            rfl
          · rw [hp, if_pos hop]
          · rw [hcommits, hm, Bool.and_false, if_neg Bool.false_ne_true]
        · have hm : e.uop.op.moves = true := by
            revert hw hu hop
            cases e.uop.op <;> simp [Op.isCp0Wr, Op.usesTlb, Op.moves]
          have hcw : e.cp0Write = .move e.staged := by
            have hne : e.uop.op ≠ .tlbr := by
              intro hr
              simp [hr, Op.usesTlb] at hu
            rw [Entry.cp0Write, if_neg hop, if_neg hne]
          refine .move e es hrob hdone hm ?_ ?_ ?_
          · rw [hr, hev, hcw]
            rfl
          · rw [hp, if_neg hop]
          · rw [hcommits, hw, hm, hcw]
            rfl
      · have hop : e.uop.op ≠ .tlbp := by
          intro hop
          simp [hop, Op.isCp0Wr] at hw
        refine .none ?_ ?_ ?_
        · rw [hr, Entry.tlbEvent, if_neg hu, if_neg hw]
          rfl
        · rw [hp, if_neg hop]
        · rw [hcommits, Bool.eq_false_iff.mpr hw, Bool.false_and, if_neg Bool.false_ne_true]

/-- While an exception is recorded nothing retires. -/
theorem saves_quiet (h : TlbPlaced p s)
    (hs : saves s.core (comb p s.core (fed p s i)) ≠ []) : s.core.regs.state = .writeEpc := by
  by_contra hne
  refine hs ?_
  have hsave : s.core.regs.saveToTlbRegs = false := by
    by_contra hsave
    exact hne (h.saving (by simpa using hsave)).1
  have hwr : (comb p s.core (fed p s i)).wrBadvaddr = false := by
    rw [wrBadvaddr_eq h.cp0.sane.fits, decide_eq_false hne, Bool.false_and]
  rw [saves, hsave, hwr]
  rfl

/-! ## A cycle -/

theorem tlbPlaced_next (h : TlbPlaced p s) (hno : strayTlbOp s.core (fed p s i) = false)
    (hheld : heldSerial s.core (fed p s i) = false) : TlbPlaced p (cp0Next p s i) where
  cp0 := cp0Inv_next h.cp0 (strayTlbr_of hno)
  probes := probeInv_next h.cp0 (cp0Inv_next h.cp0 (strayTlbr_of hno)) h.probes hheld
  saving := saving_next h.cp0.sane.fits
  refetches := by
    intro e' hmem
    obtain ⟨k, hk⟩ := List.mem_iff_getElem?.mp hmem
    obtain ⟨-, ⟨e, he, rfl⟩ | ⟨-, hnew⟩⟩ := next_getElem? h.cp0.sane.rob h.cp0.sane.fits hk
    · exact (h.refetches e (List.mem_of_getElem? he)).next
    · obtain ⟨u, d, t, rfl, -, -⟩ := mem_newEntries (List.mem_of_getElem? hnew)
      exact Entry.alloc_refetches u d t
  executed := by
    intro k e' he' hu hi
    refine usesTlb_next h.cp0 he' hu hi ?_ ?_
    · intro j e hst heq
      exact seat_start hno hst (heq ▸ hu)
    · intro j e he heq hiss
      exact (h.executed j e he (heq ▸ hu) hiss).2
  drained := by
    intro hs
    have hfrom : s.core.regs.state = .archFault := by
      have hn := state_next (p := p) (i := fed p s i) h.cp0.sane.rob h.cp0.sane.fits
      rw [show (next p s.core (fed p s i)).regs.state = .writeEpc from hs] at hn
      revert hn
      cases s.core.regs.state <;> simp [FsmState.succs]
    change retiresWriter s.core (comb p s.core (fed p s i)) = false
    have hexit := exit_cases (p := p) (i := fed p s i) h.cp0.sane.rob h.cp0.sane.fits
    cases hexit with
    | none _ hr => simp [retiresWriter, hr]
    | fault _ _ hr => simp [retiresWriter, hr]
    | one _ _ _ _ _ hst => simp [hfrom] at hst
    | two _ _ _ _ _ _ _ _ _ hst => simp [hfrom] at hst

theorem tlbPlaced_reset (stage : Nat → Staged) : TlbPlaced p (cp0Reset stage) where
  cp0 := cp0Inv_reset p stage
  probes := probeInv_reset p stage
  saving h := by cases h
  refetches e he := by simp [cp0Reset, reset] at he
  executed k e he := by simp [cp0Reset, reset] at he
  drained _ := rfl

/-- Nothing but an operation that uses the TLB concerns the TLB in the cycle. -/
structure Undisturbed (p : Params) (s : Cp0State) (i : Cp0Input) : Prop where
  valid : s.retireValid = false
  saves : saves s.core (comb p s.core (fed p s i)) = []
  probe : wrTlbp s.core (comb p s.core (fed p s i)) = none
  commits : commits (cp0Next p s i) = []

/-- A cycle, by what it does to the operation that uses the TLB: it is executed, it retires, it
waits, or there is none. -/
inductive TlbCycle (p : Params) (s : Cp0State) (i : Cp0Input) : Prop where
  | starts (k : Nat) (e e' : Entry) (hst : starting s.core (fed p s i) = some (k, e))
      (hu : e.uop.op.usesTlb = true) (ha : Undisturbed p s i) (hw : underway s.core = none)
      (hr : retires s.core (comb p s.core (fed p s i)) = [])
      (hn : underway (cp0Next p s i).core = some e') (he : e'.uop = e.uop)
  | ends (e : Entry) (hw : underway s.core = some e) (ha : Undisturbed p s i)
      (hacts : ∀ k e, starting s.core (fed p s i) = some (k, e) → e.uop.op.usesTlb = false)
      (hr : retires s.core (comb p s.core (fed p s i)) = e.uop.op.tlbEvent.toList)
      (hn : underway (cp0Next p s i).core = none)
  | stays (e e' : Entry) (hw : underway s.core = some e) (ha : Undisturbed p s i)
      (hacts : ∀ k e, starting s.core (fed p s i) = some (k, e) → e.uop.op.usesTlb = false)
      (hr : retires s.core (comb p s.core (fed p s i)) = [])
      (hn : underway (cp0Next p s i).core = some e') (he : e'.uop = e.uop)
  | idle (hw : underway s.core = none)
      (hacts : ∀ k e, starting s.core (fed p s i) = some (k, e) → e.uop.op.usesTlb = false)
      (hn : underway (cp0Next p s i).core = none)

/-- What retires beside an operation that uses the TLB is the branch whose slot it is in. -/
theorem undisturbed_of (h : TlbPlaced p s) (he : s.core.rob[k]? = some e) (hu : e.uop.op.usesTlb = true)
    (hseat : TlbSeat s.core k) (hvalid : s.retireValid = false) :
    Undisturbed p s i ∧ ((k = 0 → (comb p s.core (fed p s i)).retire = false) →
      retires s.core (comb p s.core (fed p s i)) = []) := by
  have hsave : saves s.core (comb p s.core (fed p s i)) = [] := by
    by_contra hsave
    have hst := saves_quiet h hsave
    obtain hs | hs := seat_state hseat <;> exact absurd (hst.symm.trans hs) (by decide)
  -- the head jumps, if it is not the operation itself
  have hhead {b : Entry} {bs : List Entry} (hrob : s.core.rob = b :: bs)
      (hj : b.uop.op.jumps = false) : k = 0 := by
    by_contra hk
    cases hseat with
    | head h0 => exact hk h0
    | drain h0 => exact hk h0
    | slot b' _ hb' hmis =>
      obtain rfl : b = b' := by simpa [hrob] using hb'
      exact absurd (b.uop.ok.branch hmis.slot).2 (by simp [hj])
  have hsame {b : Entry} {bs : List Entry} (hrob : s.core.rob = b :: bs)
      (hj : b.uop.op.jumps = false) : b = e := by
    have := hhead hrob hj
    simpa [this, hrob] using he
  have hturn := retires_cases (i := i) h
  cases hturn with
  | none hr hp hc => exact ⟨⟨hvalid, hsave, hp, hc⟩, fun _ => hr⟩
  | use b bs hrob hd hbu hl hr hp hc =>
    refine ⟨⟨hvalid, hsave, hp, hc⟩, ?_⟩
    intro hret
    have h0 := hret (hhead hrob (Op.usesTlb_spec hbu).2.1)
    simp [retires, retiring, h0]
  | probe b bs hrob hd hop =>
    obtain rfl := hsame hrob (by rw [hop]; rfl)
    simp [hop, Op.usesTlb] at hu
  | move b bs hrob hd hm =>
    obtain rfl := hsame hrob (Op.moves_jumps hm)
    have := (Op.usesTlb_spec hu).2.2.2.2.2.1
    simp [hm] at this

/-- What is done with in the head retires there. -/
theorem retire_of_uses (hu : e.uop.op.usesTlb = true) (h : TlbPlaced p s)
    (he : s.core.rob[0]? = some e) (hret : (comb p s.core (fed p s i)).retire = true) :
    retires s.core (comb p s.core (fed p s i)) = e.uop.op.tlbEvent.toList ∧
      leaving (comb p s.core (fed p s i)) = 1 := by
  obtain ⟨b, bs, hrob, -, hr, -, hl⟩ := retire_head h hret
  obtain rfl : b = e := by simpa [hrob] using he
  exact ⟨by rw [hr, Entry.tlbEvent, if_pos hu], hl hu⟩

theorem tlbCycle (h : TlbPlaced p s) (hno : strayTlbOp s.core (fed p s i) = false) :
    TlbCycle p s i := by
  by_cases hst : ∃ k e, starting s.core (fed p s i) = some (k, e) ∧ e.uop.op.usesTlb = true
  · obtain ⟨k, e, hst, hu⟩ := hst
    have hseat := seat_start hno hst hu
    obtain ⟨hs, he, hm⟩ := starting_eq_some.mp hst
    obtain ⟨hnone, hvalid⟩ := start_alone h hno hst hu
    have hret : k = 0 → (comb p s.core (fed p s i)).retire = false := by
      intro hk
      by_contra hr
      obtain ⟨b, bs, hrob, hd, -⟩ := retire_head h (by simpa using hr)
      obtain rfl : b = e := by simpa [hk, hrob] using he
      exact not_starting hd hst
    obtain ⟨ha, hr⟩ := undisturbed_of h he hu hseat hvalid
    exact .starts k e _ hst hu ha hnone (hr hret)
      (underway_stays h he hu hseat (Entry.next_start hs hm).1 hret) (by simp)
  · have hacts (k : Nat) (e : Entry) (hs : starting s.core (fed p s i) = some (k, e)) :
        e.uop.op.usesTlb = false := by
      by_contra hu
      exact hst ⟨k, e, hs, by simpa using hu⟩
    cases hw : underway s.core with
    | none =>
      refine .idle hw hacts (underway_ends h hacts ?_)
      intro k e he hu hi
      obtain ⟨-, -, hseat⟩ := h.executed k e he hu hi
      simp [underway_eq hseat he hu hi] at hw
    | some e =>
      obtain ⟨k, he, hu, hi⟩ := underway_spec hw
      obtain ⟨hvalid, -, hseat⟩ := h.executed k e he hu hi
      obtain ⟨ha, hr⟩ := undisturbed_of (i := i) h he hu hseat hvalid
      by_cases hret : k = 0 → (comb p s.core (fed p s i)).retire = false
      · exact .stays e _ hw ha hacts (hr hret)
          (underway_stays h he hu hseat (Entry.next_of_issued hi).1 hret) (by simp)
      · rw [Classical.not_imp, Bool.not_eq_false] at hret
        obtain ⟨rfl, hret⟩ := hret
        obtain ⟨hev, hl⟩ := retire_of_uses hu h he hret
        refine .ends e hw ha hacts hev (underway_ends h hacts ?_)
        intro k' e' he' hu' hi'
        obtain ⟨-, -, hseat'⟩ := h.executed k' e' he' hu' hi'
        rw [← seat_unique hseat he hu hseat' he' hu', hl]
        exact Nat.one_pos

theorem acts_nil {t : State} {j : Input}
    (hacts : ∀ k e, starting t j = some (k, e) → e.uop.op.usesTlb = false) : acts t j = [] := by
  unfold acts
  split
  next k e hst =>
    have := hacts k e hst
    revert this
    cases e.uop.op <;> simp [Op.usesTlb, Op.tlbEvent]
  next => rfl

/-- **The balance of a cycle**: what is done now, what is left to be done of what has retired, and
what has been done before it retires. -/
theorem balance (h : TlbPlaced p s) (hno : strayTlbOp s.core (fed p s i) = false) :
    pending s.core ++
        ((wrTlbp s.core (comb p s.core (fed p s i))).toList.map (fun x => .probe x.1 x.2) ++
          acts s.core (fed p s i) ++ saves s.core (comb p s.core (fed p s i))) ++
        (commits (cp0Next p s i)).map Cp0Write.event =
      retires s.core (comb p s.core (fed p s i)) ++
        saves s.core (comb p s.core (fed p s i)) ++ pending (cp0Next p s i).core := by
  have hcycle := tlbCycle h hno
  cases hcycle with
  | starts k e e' hst hu ha hw hr hn he =>
    have hacts : acts s.core (fed p s i) = e.uop.op.tlbEvent.toList := by rw [acts, hst]
    simp [pending, hw, hn, he, hr, hacts, ha.saves, ha.probe, ha.commits]
  | ends e hw ha hacts hr hn =>
    simp [pending, hw, hn, hr, acts_nil hacts, ha.saves, ha.probe, ha.commits]
  | stays e e' hw ha hacts hr hn he =>
    simp [pending, hw, hn, he, hr, acts_nil hacts, ha.saves, ha.probe, ha.commits]
  | idle hw hacts hn =>
    have hsave : saves s.core (comb p s.core (fed p s i)) ≠ [] →
        retires s.core (comb p s.core (fed p s i)) = [] ∧ commits (cp0Next p s i) = [] := by
      intro hs
      have hst := saves_quiet h hs
      have hret : (comb p s.core (fed p s i)).retire = false := by
        have hexit := exit_cases (p := p) (i := fed p s i) h.cp0.sane.rob h.cp0.sane.fits
        cases hexit with
        | none _ hr => exact hr
        | fault _ _ hr => exact hr
        | one _ _ _ _ _ hs' => simp [hst] at hs'
        | two _ _ _ _ _ _ _ _ _ hs' => simp [hst] at hs'
      constructor
      · simp [retires, retiring, hret]
      · rw [commits_next h.cp0]
        simp [retiresWriter, hret]
    have hturn := retires_cases (i := i) h
    cases hturn with
    | none hr hp hc => simp [pending, hw, hn, hr, hp, hc, acts_nil hacts]
    | use e es hrob hd hu =>
      have hmem : e ∈ s.core.rob := by simp [hrob]
      have hi := (usesTlb_done h hmem hu hd).1
      have he : s.core.rob[0]? = some e := by simp [hrob]
      obtain ⟨-, -, hseat⟩ := h.executed 0 e he hu hi
      simp [underway_eq hseat he hu hi] at hw
    | probe e es hrob hd hop hr hp hc => simp [pending, hw, hn, hr, hp, hc, acts_nil hacts]
    | move e es hrob hd hm hr hp hc =>
      have hs : saves s.core (comb p s.core (fed p s i)) = [] := by
        by_contra hs
        simp [(hsave hs).2] at hc
      simp [pending, hw, hn, hr, hp, hc, hs, acts_nil hacts]

end Step

end Core

end R9999
