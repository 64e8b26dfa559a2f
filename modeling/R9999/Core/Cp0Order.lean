import R9999.Core.Cp0

/-!
# What the CP0 reads return

The probes of the memory pipe make no sequence check.  A probe reads `EntryHi` only, and
what writes `EntryHi` serializes or restarts the fetch: nothing younger is in the reorder
buffer when it retires.  With the invariant of the sequence numbers this gives the order of
all reads and writes.
-/

namespace R9999

namespace Core

/-- A serializing operation has nothing behind it. -/
def Last (s : State) : Prop :=
  ∀ k e, s.rob[k]? = some e → e.uop.serializingOp = true → k + 1 = s.rob.length

/-- The step gate holds a serializing operation that is complete. -/
def heldSerial (s : State) (i : Input) : Bool :=
  decide (s.regs.state = .active) && s.rob.any (·.uop.serializingOp) && !i.stepOk

section Last

variable {p : Params} {s : State} {i : Input}

/-- Nothing is allocated behind a serializing operation that stays. -/
theorem serial_no_alloc (hok : RobOk s) (hf : Fits s) (hpl : Placed s)
    (hheld : heldSerial s i = false) {k : Nat} {e : Entry} (he : s.rob[k]? = some e)
    (hser : e.uop.serializingOp = true) (hl : leaving (comb p s i) ≤ k) :
    (comb p s i).alloc = false := by
  cases ha : (comb p s i).alloc with
  | false => rfl
  | true =>
    exfalso
    have hq := (hok e (List.mem_of_getElem? he)).quiet (e.uop.ok.serializing hser)
    have hnoslot := (e.uop.ok.plain (e.uop.ok.serializing hser)).2.2.2.1
    have hstep (hs : s.regs.state = .active) : i.stepOk = true := by
      have hany : s.rob.any (·.uop.serializingOp) = true :=
        List.any_eq_true.mpr ⟨e, List.mem_of_getElem? he, hser⟩
      simpa [heldSerial, hs, hany] using hheld
    have hseat := hpl k e he hser
    obtain ⟨hs, -⟩ | ⟨hs, -⟩ := alloc_cases hok hf ha
    · obtain ⟨c, hturn, hcomb⟩ := comb_active (p := p) (i := i) hs
      cases hseat with
      | head hk _ hdone =>
        subst hk
        obtain ⟨es, hrob⟩ := rob_head he
        cases hturn with
        | detour => simp [hcomb, finish] at ha
        | fault b bs _ _ _ harch => simp [hcomb, finish, faultedHead, harch] at ha
        | restart b bs _ _ _ harch => simp [hcomb, finish, faultedHead, harch] at ha
        | retire =>
          simp only [hcomb, finish, leaving, accumulate_retire, Bool.true_or, if_true] at hl
          split at hl <;> omega
        | wait hno => simp [canRetireRobHead, hrob, hdone, hstep hs, hq] at hno
      | slot b hk hb hmis hst =>
        obtain hst | ⟨-, hdone⟩ := hst
        · simp [hs] at hst
        · subst hk
          obtain ⟨bs, hrob⟩ := rob_head hb
          have hes : ∃ es, bs = e :: es := by
            cases bs with
            | nil => simp [hrob] at he
            | cons f fs =>
              obtain rfl : f = e := by simpa [hrob] using he
              exact ⟨fs, rfl⟩
          obtain ⟨es, rfl⟩ := hes
          cases hturn with
          | detour => simp [hcomb, finish] at ha
          | fault b bs _ _ _ harch => simp [hcomb, finish, faultedHead, harch] at ha
          | restart b bs _ _ _ harch => simp [hcomb, finish, faultedHead, harch] at ha
          | retire b' bs' hrob' _ hfl =>
            obtain ⟨rfl, -⟩ := List.cons.inj (hrob.symm.trans hrob')
            simp [hmis.faulted] at hfl
          | wait hno =>
            simp [canRetireRobHead, hrob, hmis.done, hmis.slot, hstep hs, nextDone, hdone] at hno
      | alone _ hst => simp [hs] at hst
      | drain _ hst => simp [hs] at hst
      | dead _ _ hst => simp [hs] at hst
    · have hno : s.regs.state ≠ .serializeInFaultedDelaySlot ∧
          s.regs.state ≠ .allocForSerialize := by
        cases hseat with
        | alone _ hst => simp [hst]
        | head _ hst => obtain hst | hst := hst <;> simp [hst]
        | slot b _ _ _ hst => obtain hst | ⟨hst, -⟩ := hst <;> simp [hst]
        | drain _ hst => simp [hst]
        | dead _ _ hst => obtain hst | hst | hst | hst := hst <;> simp [hst]
      obtain hs | hs := hs
      · exact hno.2 hs
      · exact hno.1 hs

theorem last_next (hok : RobOk s) (hf : Fits s) (hpl : Placed s) (h : Last s)
    (hheld : heldSerial s i = false) : Last (next p s i) := by
  intro k e' he' hser
  have hle := leaving_le (p := p) (i := i) hok hf
  obtain ⟨hclr, ⟨e, he, rfl⟩ | ⟨hk, hnew⟩⟩ := next_getElem? hok hf he'
  · rw [Entry.next_uop] at hser
    have ha := serial_no_alloc hok hf hpl hheld he hser (Nat.le_add_right _ k)
    have hlast := h _ e he hser
    rw [rob_next hclr, newEntries_nil ha]
    simp only [List.append_nil, List.length_drop, progress_length]
    omega
  · obtain ⟨u, d, t, rfl, ha, hu⟩ := mem_newEntries (List.mem_of_getElem? hnew)
    obtain ⟨-, ⟨us, hdq⟩, htwo⟩ := new_serial hok hf ha hu hser
    have hone := newEntries_cons (i := i) hdq ha htwo
    rw [hone] at hnew
    have hlt := (List.getElem?_eq_some_iff.mp hnew).1
    rw [rob_next hclr, hone]
    simp only [List.length_append, List.length_drop, progress_length,
      List.length_singleton] at hlt ⊢
    omega

/-- After an operation that uses the TLB has retired the slot is done with. -/
theorem usesTlb_leaves (hok : RobOk s) (hf : Fits s) (hsound : RobSound s) (htrap : Trapping s)
    {k : Nat} {e : Entry} (he : s.rob[k]? = some e) (hu : e.uop.op.usesTlb = true)
    (hfault : e.done = true → e.faulted = true) (hl : k < leaving (comb p s i)) :
    (next p s i).regs.dsDone = true := by
  have hmem := List.mem_of_getElem? he
  have hnoslot : e.uop.hasDelaySlot = false := by
    cases hd : e.uop.hasDelaySlot with
    | false => rfl
    | true =>
      have := (e.uop.ok.branch hd).2
      simp [(Op.usesTlb_spec hu).2.1] at this
  have hexit := exit_cases (p := p) (i := i) hok hf
  cases hexit with
  | none hl' => omega
  | fault hs hl' =>
    obtain ⟨f, es, hrob, harch⟩ := htrap hs
    obtain rfl : f = e := by
      obtain rfl : k = 0 := by omega
      simpa [hrob] using he
    rw [(hok f hmem).archFault_usesTlb (hsound f hmem) hu] at harch
    cases harch
  | one f es hrob hdone harch hs hl' hr =>
    obtain rfl : f = e := by
      obtain rfl : k = 0 := by omega
      simpa [hrob] using he
    obtain hs | ⟨hs, -⟩ := hs
    · obtain ⟨c, hturn, hcomb⟩ := comb_active (p := p) (i := i) hs
      cases hturn with
      | detour => simp [hcomb, finish] at hr
      | fault => simp [hcomb, finish] at hr
      | restart b bs hrob' _ _ har =>
        obtain ⟨rfl, -⟩ := List.cons.inj (hrob.symm.trans hrob')
        simp [next, hcomb, finish, faultedHead, har, hnoslot]
      | retire b bs hrob' _ hfl =>
        obtain ⟨rfl, -⟩ := List.cons.inj (hrob.symm.trans hrob')
        simp [hfault hdone] at hfl
      | wait =>
        obtain ⟨-, hret, -⟩ := allocate_state (p := p) (i := i) (s := s) (by simp [hrob]) (tick s i)
        simp [hcomb, finish, hret] at hr
    · obtain ⟨c, hturn, hcomb⟩ := comb_drain (p := p) (i := i) hs
      cases hturn with
      | retire => simp [next, hcomb, finish]
      | _ => simp [hcomb, finish] at hr
  | two f g es hrob hdone hdone2 hfl hfl2 _ _ hl' =>
    obtain _ | _ | k := k
    · obtain rfl : f = e := by simpa [hrob] using he
      simp [hfault hdone] at hfl
    · obtain rfl : g = e := by simpa [hrob] using he
      simp [hfault hdone2] at hfl2
    · omega

end Last

/-! ## Probes -/

/-- The writes that a probe depends on. -/
def entryHis (l : List Cp0Write) : List Cp0Write := l.filter Cp0Write.entryHi

structure ProbeInv (p : Params) (s : Cp0State) : Prop where
  placed : Placed s.core
  last : Last s.core
  undone : Undone s.core
  /-- A probe is answered only after it was made. -/
  asked : ∀ k e, s.core.rob[k]? = some e → e.uop.op = .tlbp → e.complete = true →
    (s.seen (robSlot p s k)).isSome = true
  /-- A probe that is not behind a `TLBR` has seen every write of `EntryHi`. -/
  saw : ∀ k e x, s.core.rob[k]? = some e → e.uop.op = .tlbp →
    s.seen (robSlot p s k) = some x → s.core.regs.dsDone = false →
    (∀ (j : Nat) (f : Entry), j < k → s.core.rob[j]? = some f → f.uop.op ≠ .tlbr) →
    entryHis x.log = entryHis (s.retired.map Entry.cp0Write)

section Probe

variable {p : Params} {s : Cp0State} {i : Cp0Input}

theorem entryHis_append (l m : List Cp0Write) : entryHis (l ++ m) = entryHis l ++ entryHis m :=
  List.filter_append l m

/-- A move to `EntryHi` serializes. -/
theorem entryHi_serial {e : Entry} (hw : e.uop.op.isCp0Wr = true) (hne : e.uop.op ≠ .tlbr)
    (hhi : e.cp0Write.entryHi = true) : e.uop.serializingOp = true := by
  have hp : e.uop.op ≠ .tlbp := by
    intro hp
    simp [Entry.cp0Write, hp, Cp0Write.entryHi] at hhi
  have hm : e.uop.op.moves = true := by
    revert hw hne hp
    cases e.uop.op <;> simp [Op.isCp0Wr, Op.moves]
  rw [e.uop.ok.sync hm]
  simp only [Entry.cp0Write, hp, hne, if_false, Cp0Write.entryHi, Entry.staged] at hhi
  cases hplain : mtc0Plain e.uop.dst with
  | false => rfl
  | true =>
    exfalso
    revert hhi
    simp only [mtc0Plain, Bool.or_eq_true, beq_iff_eq] at hplain
    obtain (((((((h | h) | h) | h) | h) | h) | h) | h) | h := hplain <;> rw [h] <;> decide

/-- While an entry is behind the head, the writer that retires there writes no
`EntryHi`, unless it is a `TLBR`. -/
theorem retired_entryHis (h : Cp0Inv p s) (hlast : Last s.core) {k : Nat}
    (hk : k < s.core.rob.length) (hl : leaving (comb p s.core (fed p s i)) ≤ k)
    (hno : ∀ e, s.core.rob[0]? = some e → e.uop.op = .tlbr →
      leaving (comb p s.core (fed p s i)) = 0) :
    entryHis ((cp0Next p s i).retired.map Entry.cp0Write) =
      entryHis (s.retired.map Entry.cp0Write) := by
  rw [retired_next h]
  cases hv : retiresWriter s.core (comb p s.core (fed p s i)) with
  | false => simp
  | true =>
    obtain ⟨e, es, hrob, hdone, hw, -, hl'⟩ := retiresWriter_spec h hv
    have hhi : e.cp0Write.entryHi = false := by
      cases hhi : e.cp0Write.entryHi with
      | false => rfl
      | true =>
        exfalso
        by_cases hop : e.uop.op = .tlbr
        · have := hno e (by simp [hrob]) hop
          omega
        · have := hlast 0 e (by simp [hrob]) (entryHi_serial hw hop hhi)
          omega
    simp [hrob, entryHis, hhi]

/-- The memory pipe completes a probe only if it was made. -/
theorem probe_done {k : Nat} {e : Entry} (hop : e.uop.op = .tlbp) (hc : e.complete = false)
    (hn : (e.next s.core (fed p s i) k).complete = true) : mayAnswer p s k = true := by
  have hmem := e.uop.ok.probe hop
  have hint : e.uop.isInt = false := by
    cases hint : e.uop.isInt with
    | false => rfl
    | true => simp [(e.uop.ok.pipeInt hint).1] at hmem
  have hfp := e.uop.ok.pipeMem hmem
  have h1 : applyAt Entry.intDone k (fed p s i).intDone e = e := by
    unfold applyAt
    split
    · rfl
    · simp [Entry.intDone, hint]
  have h2 : applyAt Entry.fpDone k (fed p s i).fpDone e = e := by
    unfold applyAt
    split
    · rfl
    · simp [Entry.fpDone, hfp]
  have hsd (f : Entry) : f.sdDone.complete = f.complete := rfl
  have hstart (f : Entry) (a : BitVec 64) : (f.start a).complete = f.complete := rfl
  have h3 : (applyAt Entry.memDone k (fed p s i).memDone e).complete = true := by
    simp only [Entry.next, h1, h2] at hn
    revert hn
    split <;> split <;> simp [hsd, hstart]
  unfold applyAt at h3
  split at h3
  · simp [hc] at h3
  next j r hj =>
    split at h3
    next hjk =>
      subst hjk
      simp only [fed, Option.filter_eq_some_iff] at hj
      exact hj.2
    next => simp [hc] at h3

theorem probe_asked_next (h : Cp0Inv p s) (hpr : ProbeInv p s) {k : Nat} {e' : Entry}
    (he' : (cp0Next p s i).core.rob[k]? = some e') (hop : e'.uop.op = .tlbp)
    (hc : e'.complete = true) :
    ((cp0Next p s i).seen (robSlot p (cp0Next p s i) k)).isSome = true := by
  obtain ⟨hclr, ⟨e, he, rfl⟩ | ⟨-, hnew⟩⟩ := next_getElem? h.sane.rob h.sane.fits he'
  · rw [Entry.next_uop] at hop
    have hlt := (List.getElem?_eq_some_iff.mp he).1
    have hseen : (s.seen (robSlot p s (leaving (comb p s.core (fed p s i)) + k))).isSome =
        true := by
      cases hcomp : e.complete with
      | true => exact hpr.asked _ e he hop hcomp
      | false => simpa [mayAnswer, he, hop] using probe_done hop hcomp hc
    rw [robSlot_next hclr]
    change (seenNext p s i _).isSome = true
    rw [seenNext_old h.sane h.short hlt]
    split
    · rfl
    · split
      · rfl
      · exact hseen
  · obtain ⟨u, d, t, rfl, -, -⟩ := mem_newEntries (List.mem_of_getElem? hnew)
    change u.op = .tlbp at hop
    change u.op.fold = true at hc
    simp [hop, Op.fold] at hc

/-- What a probe reads in this cycle. -/
theorem written_entryHis (h : Cp0Inv p s) (h' : Cp0Inv p (cp0Next p s i)) (hlast : Last s.core)
    {k : Nat} {e' : Entry} (he' : (cp0Next p s i).core.rob[k]? = some e')
    (hop : e'.uop.op = .tlbp) (hk : leaving (comb p s.core (fed p s i)) + k < s.core.rob.length)
    (hno : ∀ (j : Nat) (f : Entry), j < k → (cp0Next p s i).core.rob[j]? = some f →
      f.uop.op ≠ .tlbr) :
    entryHis (cp0Next p s i).written = entryHis ((cp0Next p s i).retired.map Entry.cp0Write) := by
  have hlaw : (cp0Next p s i).written ++ commits (cp0Next p s i) =
      (cp0Next p s i).retired.map Entry.cp0Write ++
        if readingTlb (cp0Next p s i).core then [.readTlb] else [] := h'.law
  have hr : readingTlb (cp0Next p s i).core = false := by
    cases hr : readingTlb (cp0Next p s i).core with
    | false => rfl
    | true =>
      exfalso
      obtain ⟨j, f, hf, hfop, hi⟩ := readingTlb_iff.mp hr
      obtain ⟨-, hz, -⟩ := h'.tlb j f hf hfop hi
      have hne : j ≠ k := by
        rintro rfl
        obtain rfl := Option.some.inj (hf.symm.trans he')
        simp [hop] at hfop
      by_cases hjk : j < k
      · exact hno j f hjk hf hfop
      · have := writers_zero hz (k := k) (by omega) he'
        simp [hop, Op.isCp0Wr] at this
  have hcommit : entryHis (commits (cp0Next p s i)) = [] := by
    rw [commits_next h]
    split
    next hv =>
      simp only [Bool.and_eq_true] at hv
      obtain ⟨e, es, hrob, hdone, hw, -, hl⟩ := retiresWriter_spec h hv.1
      have hm : e.uop.op.moves = true := by simpa [hrob] using hv.2
      have hne : e.uop.op ≠ .tlbr := by
        intro hop
        simp [hop, Op.moves] at hm
      cases hhi : e.cp0Write.entryHi with
      | false => simp [hrob, entryHis, hhi]
      | true =>
        have := hlast 0 e (by simp [hrob]) (entryHi_serial hw hne hhi)
        omega
    next => rfl
  have heq := congrArg entryHis hlaw
  rw [entryHis_append, hcommit, hr] at heq
  simpa [entryHis_append] using heq

theorem probe_saw_next (h : Cp0Inv p s) (h' : Cp0Inv p (cp0Next p s i)) (hpr : ProbeInv p s)
    {k : Nat} {e' : Entry} {x : Seen} (he' : (cp0Next p s i).core.rob[k]? = some e')
    (hop : e'.uop.op = .tlbp)
    (hx : (cp0Next p s i).seen (robSlot p (cp0Next p s i) k) = some x)
    (hds : (cp0Next p s i).core.regs.dsDone = false)
    (hno : ∀ (j : Nat) (f : Entry), j < k → (cp0Next p s i).core.rob[j]? = some f →
      f.uop.op ≠ .tlbr) :
    entryHis x.log = entryHis ((cp0Next p s i).retired.map Entry.cp0Write) := by
  obtain ⟨hclr, ⟨e, he, rfl⟩ | ⟨hk, hnew⟩⟩ := next_getElem? h.sane.rob h.sane.fits he'
  · rw [Entry.next_uop] at hop
    have hlt := (List.getElem?_eq_some_iff.mp he).1
    rw [robSlot_next hclr] at hx
    change seenNext p s i _ = some x at hx
    rw [seenNext_old h.sane h.short hlt] at hx
    split at hx
    next =>
      obtain rfl := Option.some.inj hx
      exact written_entryHis h h' hpr.last he' (by simpa using hop) hlt hno
    next =>
      -- a `TLBR` that leaves ends the life of what is behind it
      have hstay {j : Nat} {f : Entry} (hf : s.core.rob[j]? = some f) (hfop : f.uop.op = .tlbr) :
          leaving (comb p s.core (fed p s i)) ≤ j := by
        by_contra hlt
        have hd := usesTlb_leaves (p := p) (i := fed p s i) h.sane.rob h.sane.fits h.sound
          h.trapping hf (by simp [hfop, Op.usesTlb])
          (tlbr_faulted h (List.mem_of_getElem? hf) hfop) (by omega)
        exact Bool.false_ne_true (hds.symm.trans hd)
      have hnread : readsAt p s i (leaving (comb p s.core (fed p s i)) + k) = false := by
        cases hr : readsAt p s i (leaving (comb p s.core (fed p s i)) + k) with
        | false => rfl
        | true =>
          obtain ⟨hst, -⟩ := (readsAt_iff he).mp hr
          obtain ⟨-, -, hm⟩ := starting_eq_some.mp hst
          simp only [mayStart, Bool.and_eq_true] at hm
          have := e.uop.ok.probe hop
          simp [(e.uop.ok.pipeInt hm.1.1.1.1).1] at this
      rw [hnread, if_neg Bool.false_ne_true] at hx
      have hold : s.core.regs.dsDone = false := by
        cases hd : s.core.regs.dsDone with
        | false => rfl
        | true =>
          have := dsDone_kept (p := p) (i := fed p s i) h.sane.fits hpr.undone hclr hd
          exact (Bool.false_ne_true (hds.symm.trans this)).elim
      have hsaw := hpr.saw _ e x he hop hx hold (by
        intro j f hj hf hfop
        have hlj := hstay hf hfop
        refine hno (j - leaving (comb p s.core (fed p s i))) (f.next s.core (fed p s i) j)
          (by omega) ?_ (by simpa using hfop)
        have hjlt := (List.getElem?_eq_some_iff.mp hf).1
        change (next p s.core (fed p s i)).rob[_]? = _
        rw [rob_next hclr, List.getElem?_append_left (by simp; omega), List.getElem?_drop,
          Nat.add_sub_cancel' hlj, progress_getElem?, hf]
        rfl)
      rw [hsaw]
      refine (retired_entryHis h hpr.last hlt (Nat.le_add_right _ k) ?_).symm
      intro f hf hfop
      have := hstay hf hfop
      omega
  · obtain ⟨j, hj⟩ : ∃ j, leaving (comb p s.core (fed p s i)) + k = s.core.rob.length + j :=
      ⟨_, (Nat.add_sub_cancel' hk).symm⟩
    rw [robSlot_next hclr, hj] at hx
    rw [hj, Nat.add_sub_cancel_left] at hnew
    change seenNext p s i _ = some x at hx
    rw [seenNext_new h.sane hnew] at hx
    cases hx

theorem probeInv_next (h : Cp0Inv p s) (h' : Cp0Inv p (cp0Next p s i)) (hpr : ProbeInv p s)
    (hheld : heldSerial s.core (fed p s i) = false) : ProbeInv p (cp0Next p s i) where
  placed := placed_next h.sane.rob h.sane.fits hpr.placed
  last := last_next h.sane.rob h.sane.fits hpr.placed hpr.last hheld
  undone := undone_next h.sane.rob h.sane.fits hpr.undone
  asked := fun _ _ => probe_asked_next h hpr
  saw := fun _ _ _ => probe_saw_next h h' hpr

theorem probeInv_reset (p : Params) (stage : Nat → Staged) : ProbeInv p (cp0Reset stage) where
  placed := placed_reset
  last k e he := by simp [cp0Reset, reset] at he
  undone h := by cases h
  asked k e he := by simp [cp0Reset, reset] at he
  saw k e x he := by simp [cp0Reset, reset] at he

end Probe

/-! ## The law -/

/-- The order of the CP0 reads and writes. -/
structure Cp0Law (p : Params) (s : Cp0State) : Prop where
  /-- The sequence numbers agree when the reorder buffer is empty, up to the commit that is
  under way. -/
  counters : s.core.rob = [] → s.allocSeq = s.retireSeq ∧
    (s.commitSeq + s.retireValid.toNat) % seqSize p = s.retireSeq
  /-- The sequence check of an entry passes exactly if no older writer is in flight and none
  is being committed. -/
  gate : ∀ k e, s.core.rob[k]? = some e →
    (e.tag.cp0Seq = s.commitSeq ↔
      writers (s.core.rob.take k) = 0 ∧ s.retireValid = false)
  /-- The writes performed, and the one being committed, are those of the retired writers,
  each with its own data, once and in order, and that of a `TLBR` under way. -/
  written : Accounted s
  /-- A read of the int pipe that the scheduler issued has seen the writes of exactly the
  older writers. -/
  reads : ∀ i k e, (retiring s.core (comb p s.core (fed p s i)))[k]? = some e →
    e.uop.isInt = true → e.uop.op.isCp0Rd = true →
    ∃ x, s.seen (robSlot p s k) = some x ∧ (x.gated = true →
      x.log = (s.retired ++ (s.core.rob.take k).filter (·.uop.op.isCp0Wr)).map Entry.cp0Write)
  /-- A probe has seen exactly the writes of `EntryHi` of the older writers. -/
  probes : ∀ i k e, (retiring s.core (comb p s.core (fed p s i)))[k]? = some e →
    e.uop.op = .tlbp →
    ∃ x, s.seen (robSlot p s k) = some x ∧
      entryHis x.log = entryHis
        ((s.retired ++ (s.core.rob.take k).filter (·.uop.op.isCp0Wr)).map Entry.cp0Write)

/-- No `TLBR` is executed behind an entry that is thrown away, and the step gate holds no
serializing operation. -/
def Cp0Ok (p : Params) (s : Cp0State) (i : Cp0Input) : Prop :=
  strayTlbr s.core (fed p s i) = false ∧ heldSerial s.core (fed p s i) = false

instance (p : Params) (s : Cp0State) (i : Cp0Input) : Decidable (Cp0Ok p s i) :=
  inferInstanceAs (Decidable (_ ∧ _))

section Law

variable {p : Params} {s : Cp0State} {i : Cp0Input}

/-- What retires is complete, and what retires before it restarts nothing. -/
theorem retiring_spec (hok : RobOk s.core) (hf : Fits s.core) (hun : Undone s.core) {k : Nat}
    {e : Entry} (he : (retiring s.core (comb p s.core (fed p s i)))[k]? = some e) :
    s.core.rob[k]? = some e ∧ e.done = true ∧ s.core.regs.dsDone = false ∧
      (k = 0 ∨ k = 1 ∧ ∃ f fs, s.core.rob = f :: e :: fs ∧ f.done = true ∧
        f.faulted = false) := by
  have hds (hs : s.core.regs.state = .active) : s.core.regs.dsDone = false := by
    cases hd : s.core.regs.dsDone with
    | false => rfl
    | true =>
      have := hun hd
      simp [hs, FsmState.doneWith] at this
  have hexit := exit_cases (p := p) (i := fed p s i) hok hf
  cases hexit with
  | none hl hr => simp [retiring, hr] at he
  | fault hs hl hr => simp [retiring, hr] at he
  | one f es hrob hdone harch hs hl hr h2 =>
    cases k with
    | zero =>
      obtain rfl : f = e := by simpa [retiring, hr, h2, hrob] using he
      exact ⟨by simp [hrob], hdone, hs.elim hds And.right, .inl rfl⟩
    | succ k => simp [retiring, hr, h2, hrob] at he
  | two f g es hrob hdone hdone2 hfl _ _ hs hl hr h2 =>
    obtain _ | _ | k := k
    · obtain rfl : f = e := by simpa [retiring, hr, h2, hrob] using he
      exact ⟨by simp [hrob], hdone, hds hs, .inl rfl⟩
    · obtain rfl : g = e := by simpa [retiring, hr, h2, hrob] using he
      exact ⟨by simp [hrob], hdone2, hds hs, .inr ⟨rfl, f, es, hrob, hdone, hfl⟩⟩
    · simp [retiring, hr, h2, hrob] at he

theorem reads_law (h : Cp0Inv p s) (hun : Undone s.core) {k : Nat} {e : Entry}
    (he : (retiring s.core (comb p s.core (fed p s i)))[k]? = some e)
    (hint : e.uop.isInt = true) (hrd : e.uop.op.isCp0Rd = true) :
    ∃ x, s.seen (robSlot p s k) = some x ∧ (x.gated = true →
      x.log = (s.retired ++
        (s.core.rob.take k).filter (·.uop.op.isCp0Wr)).map Entry.cp0Write) := by
  obtain ⟨hrob, hdone, -⟩ := retiring_spec h.sane.rob h.sane.fits hun he
  simp only [Entry.done, Bool.and_eq_true] at hdone
  have hfold : e.uop.op.fold = false := by
    revert hrd
    cases e.uop.op <;> simp [Op.isCp0Rd, Op.fold]
  have hiss := ((h.sound e (List.mem_of_getElem? hrob)).ran hint hdone.2).resolve_right
    (by simp [hfold])
  obtain ⟨x, hx, hlog⟩ := h.saw k e hrob hint hrd hiss
  refine ⟨x, hx, ?_⟩
  intro hg
  obtain ⟨hw, hl⟩ := hlog hg
  have hnone : (s.core.rob.take k).filter (·.uop.op.isCp0Wr) = [] := by
    rw [List.filter_eq_nil_iff]
    exact List.countP_eq_zero.mp hw
  rw [hl, hnone, List.append_nil]

theorem probes_law (h : Cp0Inv p s) (hpr : ProbeInv p s) {k : Nat} {e : Entry}
    (he : (retiring s.core (comb p s.core (fed p s i)))[k]? = some e) (hop : e.uop.op = .tlbp) :
    ∃ x, s.seen (robSlot p s k) = some x ∧
      entryHis x.log = entryHis
        ((s.retired ++ (s.core.rob.take k).filter (·.uop.op.isCp0Wr)).map Entry.cp0Write) := by
  obtain ⟨hrob, hdone, hds, hplace⟩ := retiring_spec h.sane.rob h.sane.fits hpr.undone he
  simp only [Entry.done, Bool.and_eq_true] at hdone
  obtain ⟨x, hx⟩ := Option.isSome_iff_exists.mp (hpr.asked k e hrob hop hdone.2)
  refine ⟨x, hx, ?_⟩
  obtain rfl | ⟨rfl, f, fs, hf, hfd, hfl⟩ := hplace
  · rw [hpr.saw 0 e x hrob hop hx hds (fun _ _ hj => absurd hj (Nat.not_lt_zero _))]
    simp
  · have hhead : s.core.rob[0]? = some f := by simp [hf]
    have hfop : f.uop.op ≠ .tlbr := by
      intro hfop
      simp only [Entry.done, Bool.and_eq_true] at hfd
      have := (h.sound f (by simp [hf])).tlbr hfop hfd.2
      simp [hfl] at this
    rw [hpr.saw 1 e x hrob hop hx hds (by
      intro j g hj hg
      obtain rfl : j = 0 := by omega
      obtain rfl := Option.some.inj (hhead.symm.trans hg)
      exact hfop)]
    have hnone : entryHis (((s.core.rob.take 1).filter (·.uop.op.isCp0Wr)).map
        Entry.cp0Write) = [] := by
      cases hw : f.uop.op.isCp0Wr with
      | false => simp [hf, hw, entryHis]
      | true =>
        cases hhi : f.cp0Write.entryHi with
        | false => simp [hf, hw, entryHis, hhi]
        | true =>
          have := hpr.last 0 f hhead (entryHi_serial hw hfop hhi)
          simp [hf] at this
    rw [List.map_append, entryHis_append, hnone, List.append_nil]

theorem cp0Law_of (h : Cp0Inv p s) (hpr : ProbeInv p s) : Cp0Law p s where
  counters := by
    intro hrob
    have ha := h.allocSeq
    simp only [before, hrob, List.take_nil, writers_nil, Nat.add_zero] at ha
    exact ⟨ha.trans h.retireSeq.symm, h.commitSeq.trans h.retireSeq.symm⟩
  gate := fun _ _ => gate_iff h
  written := h.law
  reads := fun _ _ _ => reads_law h hpr.undone
  probes := fun _ _ _ => probes_law h hpr

end Law

/-- In every run that executes no `TLBR` behind a squashed entry and holds no serializing
operation at the step gate, the CP0 reads and writes keep the program order. -/
theorem cp0_in_order (p : Params) (stage : Nat → Staged) (is : List Cp0Input)
    (hrun : Hw.RunOk (cp0Next p) (Cp0Ok p) (cp0Reset stage) is) :
    Cp0Law p (Hw.run (cp0Next p) (cp0Reset stage) is) := by
  have hinv := hrun.invariant (I := fun s => Cp0Inv p s ∧ ProbeInv p s)
    (fun s i hs hok => ?_) ⟨cp0Inv_reset p stage, probeInv_reset p stage⟩
  · exact cp0Law_of hinv.1 hinv.2
  · have hnext := cp0Inv_next hs.1 hok.1
    exact ⟨hnext, probeInv_next hs.1 hnext hs.2 hok.2⟩

/-- A move to a CP0 register. -/
def Uop.mtc0 (reg : Fin 32) (pc : BitVec 64) : Uop where
  toUopFields :=
    { UopFields.blank .mtc0 pc 0 with
      isInt := true, serializingOp := !mtc0Plain reg, dst := reg }
  ok := by
    constructor <;> simp [UopFields.blank, Op.serializes, Op.isXflush, Op.writesNow]

/-- A move from a CP0 register. -/
def Uop.mfc0 (pc : BitVec 64) : Uop where
  toUopFields := { UopFields.blank .mfc0 pc 0 with isInt := true, dst := 2, dstValid := true }
  ok := by
    constructor <;> simp [UopFields.blank, Op.serializes, Op.isXflush, Op.writesNow, Op.moves]

/-- The machine with nothing staged. -/
def cp0Start : Cp0State := cp0Reset fun _ => ⟨0, 0, false⟩

/-- `EPC` is written and read back. -/
def epcRun : List Cp0Input :=
  (boot ++
    [{ quiet with
       insn := some ⟨.mtc0 14 0x1000, false, false, by decide⟩
       insnTwo := some ⟨.mfc0 0x1004, false, false, by decide⟩ },
     quiet, { quiet with start := some 0, startA := 0x4000 },
     { quiet with intDone := some (0, IntResult.of false 0 false 0) }, quiet, quiet,
     { quiet with start := some 0 },
     { quiet with intDone := some (0, IntResult.of false 0 false 0x4000) }]).map
    fun j => ⟨j, false, none⟩

theorem cp0_in_order_epc :
    Hw.RunOk (cp0Next machine) (Cp0Ok machine) cp0Start epcRun ∧
      Cp0Law machine (Hw.run (cp0Next machine) cp0Start epcRun) :=
  ⟨by decide +kernel, cp0_in_order machine _ epcRun (by decide +kernel)⟩

/-- In the cycle after the last writer has retired, its commit is still to be counted. -/
theorem cp0_commit_lags :
    ¬ ∀ (p : Params) (stage : Nat → Staged) (is : List Cp0Input),
      (Hw.run (cp0Next p) (cp0Reset stage) is).core.rob = [] →
        (Hw.run (cp0Next p) (cp0Reset stage) is).allocSeq =
            (Hw.run (cp0Next p) (cp0Reset stage) is).retireSeq ∧
          (Hw.run (cp0Next p) (cp0Reset stage) is).retireSeq =
            (Hw.run (cp0Next p) (cp0Reset stage) is).commitSeq := by
  intro h
  have hseq := h machine (fun _ => ⟨0, 0, false⟩)
    ((boot ++
      [{ quiet with insn := some ⟨.mtc0 14 0x1000, false, false, by decide⟩ }, quiet,
       { quiet with start := some 0, startA := 0x4000 },
       { quiet with intDone := some (0, IntResult.of false 0 false 0) }, quiet]).map
      fun j => ⟨j, false, none⟩)
    (List.isEmpty_iff.mp (by decide +kernel))
  revert hseq
  decide +kernel

end Core

end R9999
