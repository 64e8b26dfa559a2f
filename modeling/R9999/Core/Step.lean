import R9999.Core.Model

/-!
# What a cycle of the core does

The entries of the reorder buffer keep their operation and only make progress, and each
state of the control machine has its own way of letting entries in and out: only `ACTIVE`,
`DRAIN`, `ARCH_FAULT` and the wait for a serializing slot remove entries at the head, only
`ACTIVE` and the two serializing states allocate, and only `RAT` clears.  The shape of the
reorder buffer in each state follows.
-/

namespace R9999

namespace Core

/-! ## Entries -/

namespace Entry

variable {s : State} {i : Input} {k : Nat} {e : Entry}

/-- What the execution units promise about an entry. -/
structure Ok (e : Entry) : Prop where
  quiet : e.uop.op.serializes = true → e.faulted = false
  issued : e.uop.op.serializes = true → e.complete = true → e.issued = true
  stored : e.uop.op.serializes = true → e.sdComplete = true
  flags : e.fpSetFlags = true → e.uop.isFp = true
  fpe : e.fpSetFlags = true → e.isFpe = e.faulted
  trap : e.isFpe = true → e.fpSetFlags = true
  fpOnly : e.uop.isFp = true → e.isIi = false
  parked : e.uop.isFp = true → e.complete = true → e.fpSetFlags = true
  likely : e.uop.hasNullifyingDelaySlot = true → e.complete = true →
    e.faulted = true ∨ e.takeBr = true

theorem alloc_ok (u : Uop) (d : Bool) (t : Tag) : (alloc u d t).Ok where
  quiet h := by
    change u.op.serializes = true at h
    change u.op.foldFaults = false
    revert h
    cases u.op <;> simp [Op.serializes, Op.foldFaults]
  issued h hc := by
    change u.op.serializes = true at h
    change u.op.fold = true at hc
    revert h hc
    cases u.op <;> simp [Op.serializes, Op.fold]
  stored h := by
    have := (u.ok.plain h).2.1
    simp [alloc, this]
  flags := nofun
  fpe := nofun
  trap := nofun
  fpOnly h := by
    change decide (u.op = .ii) = false
    simp [u.ok.fpOp h]
  parked h hc := by
    change u.op.fold = true at hc
    simp [u.ok.fpOp h, Op.fold] at hc
  likely h hc := by
    change u.hasNullifyingDelaySlot = true at h
    change u.op.fold = true at hc
    change u.op.foldFaults = true ∨ decide (u.op = .j) = true
    have hj := (u.ok.branch (u.ok.nullifying h)).2
    revert hc hj
    cases u.op <;> simp [Op.fold, Op.foldFaults, Op.jumps]

theorem quiet_faults {op : Op} (h : op.serializes = true) (b : Bool) : op.faults b = false := by
  revert h
  cases op <;> simp [Op.serializes, Op.faults]

/-- A branch faults as its result has it. -/
theorem jump_faults {op : Op} (h : op.jumps = true) (b : Bool) : op.faults b = b := by
  revert h
  cases op <;> simp [Op.jumps, Op.faults]

theorem Ok.intDone (h : e.Ok) (r : IntResult) : (e.intDone r).Ok := by
  unfold Entry.intDone
  split
  next hc =>
    simp only [Bool.and_eq_true] at hc
    obtain ⟨⟨hint, hiss⟩, -⟩ := hc
    have no : e.uop.isFp = true → False := by
      intro hfp
      simpa [hfp] using (e.uop.ok.pipeInt hint).2
    exact
      { quiet := fun hs => quiet_faults hs _
        issued := fun _ _ => hiss
        stored := h.stored
        flags := h.flags
        fpe := fun hf => (no (h.flags hf)).elim
        trap := h.trap
        fpOnly := fun hfp => (no hfp).elim
        parked := fun hfp => (no hfp).elim
        likely := by
          intro hn _
          change e.faultsWith r = true ∨ r.takeBr = true
          rw [faultsWith, jump_faults (e.uop.ok.branch (e.uop.ok.nullifying hn)).2, hn]
          cases r.takeBr <;> simp }
  next => exact h

theorem Ok.fpDone (h : e.Ok) (r : FpResult) : (e.fpDone r).Ok := by
  unfold Entry.fpDone
  split
  next hc =>
    simp only [Bool.and_eq_true] at hc
    have no : e.uop.op.serializes = true → False := by
      intro hs
      simpa [hc.1] using (e.uop.ok.plain hs).2.2.1
    exact
      { quiet := fun hs => (no hs).elim
        issued := fun hs => (no hs).elim
        stored := h.stored
        flags := fun _ => hc.1
        fpe := fun _ => rfl
        trap := fun _ => rfl
        fpOnly := h.fpOnly
        parked := fun _ _ => rfl
        likely := fun hn => by
          have hint := (e.uop.ok.branch (e.uop.ok.nullifying hn)).1
          have := (e.uop.ok.pipeInt hint).2
          simp [hc.1] at this }
  next => exact h

theorem Ok.memDone (h : e.Ok) (r : MemResult) : (e.memDone r).Ok := by
  unfold Entry.memDone
  split
  next hc =>
    simp only [Bool.and_eq_true] at hc
    have no : e.uop.op.serializes = true → False := by
      intro hs
      simpa [hc.1] using (e.uop.ok.plain hs).2.1
    have nofp : e.uop.isFp = true → False := by
      intro hfp
      simpa [hfp] using e.uop.ok.pipeMem hc.1
    exact
      { quiet := fun hs => (no hs).elim
        issued := fun hs => (no hs).elim
        stored := h.stored
        flags := h.flags
        fpe := fun hf => (nofp (h.flags hf)).elim
        trap := h.trap
        fpOnly := h.fpOnly
        parked := fun hfp => (nofp hfp).elim
        likely := fun hn => by
          have hint := (e.uop.ok.branch (e.uop.ok.nullifying hn)).1
          have := (e.uop.ok.pipeInt hint).1
          simp [hc.1] at this }
  next => exact h

theorem Ok.sdDone (h : e.Ok) : e.sdDone.Ok := { h with stored := fun _ => rfl }

theorem Ok.start (h : e.Ok) (a : BitVec 64) : (e.start a).Ok := { h with issued := fun _ _ => rfl }

/-- A property that every event of the execution units keeps is kept by a cycle. -/
theorem next_induction {P : Entry → Prop} (h : P e) (hi : ∀ e r, P e → P (intDone r e))
    (hf : ∀ e r, P e → P (fpDone r e)) (hm : ∀ e r, P e → P (memDone r e))
    (hd : ∀ e, P e → P (sdDone e)) (hs : ∀ e a, P e → P (start a e)) : P (e.next s i k) := by
  have at_ {ρ : Type} {f : ρ → Entry → Entry} (hf : ∀ e r, P e → P (f r e))
      (o : Option (Nat × ρ)) {e : Entry} (h : P e) : P (applyAt f k o e) := by
    unfold applyAt
    split
    · exact h
    · split
      · exact hf _ _ h
      · exact h
  have h := at_ hm i.memDone (at_ hf i.fpDone (at_ hi i.intDone h))
  unfold Entry.next
  dsimp only
  split
  · refine hs _ _ ?_
    split
    · exact hd _ h
    · exact h
  · split
    · exact hd _ h
    · exact h

theorem Ok.next (h : e.Ok) : (e.next s i k).Ok :=
  next_induction h (fun _ r h => h.intDone r) (fun _ r h => h.fpDone r) (fun _ r h => h.memDone r)
    (fun _ h => h.sdDone) (fun _ a h => h.start a)

/-- A cycle keeps what the allocation fixed. -/
theorem next_fixed :
    (e.next s i k).uop = e.uop ∧ (e.next s i k).inDelaySlot = e.inDelaySlot ∧
      (e.next s i k).tag = e.tag := by
  refine next_induction (P := fun f => f.uop = e.uop ∧ f.inDelaySlot = e.inDelaySlot ∧
    f.tag = e.tag) ⟨rfl, rfl, rfl⟩ ?_ ?_ ?_ (fun _ h => h) (fun _ _ h => h)
  · intro f r h
    unfold intDone
    split <;> exact h
  · intro f r h
    unfold fpDone
    split <;> exact h
  · intro f r h
    unfold memDone
    split <;> exact h

@[simp] theorem next_uop : (e.next s i k).uop = e.uop := next_fixed.1

@[simp] theorem next_inDelaySlot : (e.next s i k).inDelaySlot = e.inDelaySlot := next_fixed.2.1

@[simp] theorem next_tag : (e.next s i k).tag = e.tag := next_fixed.2.2

/-- A complete entry does not change any more. -/
theorem next_of_done (h : e.done = true) : e.next s i k = e := by
  simp only [done, Bool.and_eq_true] at h
  have hi (o : Option (Nat × IntResult)) : applyAt Entry.intDone k o e = e := by
    unfold applyAt
    split
    · rfl
    · simp [Entry.intDone, h.2]
  have hf (o : Option (Nat × FpResult)) : applyAt Entry.fpDone k o e = e := by
    unfold applyAt
    split
    · rfl
    · simp [Entry.fpDone, h.2]
  have hm (o : Option (Nat × MemResult)) : applyAt Entry.memDone k o e = e := by
    unfold applyAt
    split
    · rfl
    · simp [Entry.memDone, h.2]
  have hd : e.sdDone = e := by
    unfold sdDone
    rw [← h.1]
  simp [Entry.next, hi, hf, hm, hd, mayStart, h.2]

/-- An entry is executed in the cycle in which it starts. -/
theorem next_start (hs : i.start = some k) (hm : mayStart s k e = true) :
    (e.next s i k).issued = true ∧ (e.next s i k).srcA = i.startA := by
  unfold Entry.next
  dsimp only
  rw [if_pos ⟨hs, hm⟩]
  exact ⟨rfl, rfl⟩

theorem next_of_not_started (h : ¬ (i.start = some k ∧ mayStart s k e = true)) :
    (e.next s i k).issued = e.issued ∧ (e.next s i k).srcA = e.srcA := by
  have at_ {ρ : Type} {f : ρ → Entry → Entry}
      (hf : ∀ e r, (f r e).issued = e.issued ∧ (f r e).srcA = e.srcA) (o : Option (Nat × ρ))
      (e : Entry) : (applyAt f k o e).issued = e.issued ∧ (applyAt f k o e).srcA = e.srcA := by
    unfold applyAt
    split
    · exact ⟨rfl, rfl⟩
    · split
      · exact hf _ _
      · exact ⟨rfl, rfl⟩
  have h1 := at_ (f := intDone) (fun e r => by unfold intDone; split <;> exact ⟨rfl, rfl⟩)
    i.intDone e
  have h2 := at_ (f := fpDone) (fun e r => by unfold fpDone; split <;> exact ⟨rfl, rfl⟩)
    i.fpDone (applyAt Entry.intDone k i.intDone e)
  have h3 := at_ (f := memDone) (fun e r => by unfold memDone; split <;> exact ⟨rfl, rfl⟩)
    i.memDone (applyAt Entry.fpDone k i.fpDone (applyAt Entry.intDone k i.intDone e))
  unfold Entry.next
  dsimp only
  rw [if_neg h]
  split
  · exact ⟨h3.1.trans (h2.1.trans h1.1), h3.2.trans (h2.2.trans h1.2)⟩
  · exact ⟨h3.1.trans (h2.1.trans h1.1), h3.2.trans (h2.2.trans h1.2)⟩

/-- An executed entry is not executed again. -/
theorem next_of_issued (h : e.issued = true) :
    (e.next s i k).issued = true ∧ (e.next s i k).srcA = e.srcA := by
  have hs : ¬ (i.start = some k ∧ mayStart s k e = true) := by simp [mayStart, h]
  exact ⟨(next_of_not_started hs).1.trans h, (next_of_not_started hs).2⟩

end Entry

/-! ## The reorder buffer -/

section Rob

variable {p : Params} {s : State} {i : Input} {c : Comb}

@[simp] theorem progress_length : (progress s i).length = s.rob.length := by simp [progress]

theorem progress_getElem? (k : Nat) :
    (progress s i)[k]? = s.rob[k]?.map fun e => e.next s i k := by
  simp [progress]

/-- An entry that stays has an entry before the cycle that it comes from. -/
theorem kept_getElem? {n k : Nat} {e' : Entry} (h : ((progress s i).drop n)[k]? = some e') :
    ∃ e, s.rob[n + k]? = some e ∧ e' = e.next s i (n + k) := by
  rw [List.getElem?_drop, progress_getElem?] at h
  obtain ⟨e, he, rfl⟩ := Option.map_eq_some_iff.mp h
  exact ⟨e, he, rfl⟩

theorem executing_eq_some {e : Entry} :
    executing s i = some e ↔
      ∃ k, i.start = some k ∧ s.rob[k]? = some e ∧ mayStart s k e = true := by
  unfold executing
  split
  next h => simp [h]
  next k h => simp [h]

/-- What is allocated comes from the head of the decode queue. -/
theorem newEntries_cons {u : Uop} {us : List Uop} (hq : s.dq = u :: us) (ha : c.alloc = true)
    (h2 : c.allocTwo = false) :
    newEntries s i c = [Entry.alloc u s.regs.inDelaySlot i.tag] := by
  cases us <;> simp [newEntries, hq, ha, h2]

theorem newEntries_two {u v : Uop} {us : List Uop} (hq : s.dq = u :: v :: us)
    (ha : c.alloc = true) (h2 : c.allocTwo = true) :
    newEntries s i c =
      [Entry.alloc u s.regs.inDelaySlot i.tag, Entry.alloc v u.hasDelaySlot i.tagTwo] := by
  simp [newEntries, hq, ha, h2]

theorem newEntries_nil (ha : c.alloc = false) : newEntries s i c = [] := by
  unfold newEntries
  split
  · rfl
  · simp [ha]

/-- Every new entry is the allocation of one of the two oldest decoded operations. -/
theorem mem_newEntries {e : Entry} (h : e ∈ newEntries s i c) :
    ∃ u d t, e = Entry.alloc u d t ∧ c.alloc = true ∧
      (s.dq[0]? = some u ∨ (s.dq[1]? = some u ∧ c.allocTwo = true)) := by
  unfold newEntries at h
  split at h
  · cases h
  next u us hq =>
    cases ha : c.alloc with
    | false => simp [ha] at h
    | true =>
      rw [ha, if_pos rfl, List.mem_cons] at h
      obtain rfl | h := h
      · exact ⟨u, _, _, rfl, rfl, .inl (by simp [hq])⟩
      · split at h
        · cases h
        next v vs =>
          cases h2 : c.allocTwo with
          | false => simp [h2] at h
          | true =>
            simp only [h2, if_true, List.mem_singleton] at h
            exact ⟨v, _, _, h, rfl, .inr ⟨by simp [hq], rfl⟩⟩

/-- Every entry is as the execution units promise. -/
def RobOk (s : State) : Prop := ∀ e ∈ s.rob, e.Ok

theorem robOk_next (h : RobOk s) : RobOk (next p s i) := by
  intro e' he
  simp only [next, nextRob] at he
  split at he
  · cases he
  rw [List.mem_append] at he
  obtain he | he := he
  · obtain ⟨k, hk⟩ := List.mem_iff_getElem?.mp he
    obtain ⟨e, hg, rfl⟩ := kept_getElem? hk
    exact (h e (List.mem_of_getElem? hg)).next
  · obtain ⟨u, d, t, rfl, -, -⟩ := mem_newEntries he
    exact Entry.alloc_ok u d t

end Rob

/-! ## The control machine -/

section Fsm

variable {p : Params} {s : State} {i : Input}

@[simp] theorem tick_alloc : (tick s i).alloc = false := rfl

@[simp] theorem tick_allocTwo : (tick s i).allocTwo = false := rfl

@[simp] theorem tick_retire : (tick s i).retire = false := rfl

@[simp] theorem tick_retireTwo : (tick s i).retireTwo = false := rfl

@[simp] theorem tick_bumpRobHead : (tick s i).bumpRobHead = false := rfl

@[simp] theorem tick_ratCopy : (tick s i).ratCopy = false := rfl

@[simp] theorem tick_clrRob : (tick s i).clrRob = false := rfl

@[simp] theorem tick_clrDq : (tick s i).clrDq = false := rfl

@[simp] theorem tick_fcsrWe : (tick s i).fcsrWe = false := rfl

@[simp] theorem tick_state : (tick s i).n.state = s.regs.state := rfl

@[simp] theorem tick_dsDone : (tick s i).n.dsDone = s.regs.dsDone := rfl

/-- What `ACTIVE` does in a cycle, with the conditions it does it under. -/
inductive Turn (p : Params) (s : State) (i : Input) (c : Comb) : Comb → Prop where
  /-- The head is a faulted branch and its slot is a serializing operation that is still in
  the decode queue. -/
  | detour (b : Entry) (u : Uop) (us : List Uop) (hrob : s.rob = [b]) (hdone : b.done = true)
      (hslot : b.uop.hasDelaySlot = true) (hfault : b.faulted = true) (hdq : s.dq = u :: us)
      (hser : u.serializingOp = true) :
      Turn p s i c { c with n := { c.n with state := .serializeInFaultedDelaySlot } }
  /-- The head takes an architectural fault. -/
  | fault (e : Entry) (es : List Entry) (hrob : s.rob = e :: es) (hdone : e.done = true)
      (hfault : e.faulted = true) (harch : e.archFault = true) :
      Turn p s i c { faultedHead s e c with retire := false, retireTwo := false }
  /-- The head retires and restarts the fetch. -/
  | restart (e : Entry) (es : List Entry) (hrob : s.rob = e :: es) (hdone : e.done = true)
      (hfault : e.faulted = true) (harch : e.archFault = false)
      (hnull : e.uop.hasNullifyingDelaySlot = true → es ≠ [])
      (hslot : e.uop.hasNullifyingDelaySlot = false → e.uop.hasDelaySlot = true →
        ∃ f fs, es = f :: fs ∧ f.done = true) :
      Turn p s i c (accumulate e es { faultedHead s e c with retire := true, retireTwo := false })
  /-- One or two entries retire, and others may be allocated. -/
  | retire (e : Entry) (es : List Entry) (hrob : s.rob = e :: es) (hdone : e.done = true)
      (hfault : e.faulted = false) :
      Turn p s i c
        (accumulate e es
          { allocate p s i c with retire := true, retireTwo := canRetireTwo i e es })
  /-- Nothing can retire. -/
  | wait (hno : canRetireRobHead s i = false) : Turn p s i c (allocate p s i c)

theorem archFault_of_faulted {e : Entry} (h : e.faulted = false) : e.archFault = false := by
  simp [Entry.archFault, h]

theorem accumulate_none (e : Entry) (es : List Entry) (c : Comb) :
    accumulate e es { c with retire := false, retireTwo := false } =
      { c with retire := false, retireTwo := false } := by
  cases es <;> rfl

theorem active_turn (c : Comb) : Turn p s i c (active p s i c) := by
  unfold active
  split
  next h =>
    unfold faultedHeadAndSerializingDelay at h
    split at h
    next b u us hrob hdq =>
      simp only [Bool.and_eq_true, Bool.or_eq_true] at h
      obtain ⟨⟨⟨hdone, hslot⟩, hfault⟩, hser⟩ := h
      exact .detour b u us hrob hdone (hslot.elim id b.uop.ok.nullifying) hfault hdq hser
    next => cases h
  next =>
    split
    next h =>
      unfold canRetireRobHead at h
      split
      next hrob => simp [hrob] at h
      next e es hrob =>
        simp only [hrob, Bool.and_eq_true] at h
        obtain ⟨⟨hdone, -⟩, hwait⟩ := h
        unfold retireHead
        cases hfault : e.faulted with
        | true =>
          rw [hfault, if_pos rfl] at hwait
          have htwo : canRetireTwo i e es = false := by
            cases es <;> simp [canRetireTwo, hfault]
          cases harch : e.archFault with
          | true =>
            have hturn := Turn.fault (p := p) (i := i) (c := c) e es hrob hdone hfault harch
            simpa [hdone, htwo, accumulate_none] using hturn
          | false =>
            have hnull : e.uop.hasNullifyingDelaySlot = true → es ≠ [] := by
              intro hn
              simpa [hn] using hwait
            have hslot : e.uop.hasNullifyingDelaySlot = false → e.uop.hasDelaySlot = true →
                ∃ f fs, es = f :: fs ∧ f.done = true := by
              intro hn hd
              rw [hn, hd, if_neg Bool.false_ne_true, if_pos rfl] at hwait
              cases es with
              | nil => cases hwait
              | cons f fs => exact ⟨f, fs, rfl, hwait⟩
            have hturn := Turn.restart (p := p) (i := i) (c := c) e es hrob hdone hfault harch
              hnull hslot
            simpa [hdone, htwo] using hturn
        | false =>
          have hturn := Turn.retire (p := p) (s := s) (i := i) (c := c) e es hrob hdone hfault
          simpa [hdone, archFault_of_faulted hfault] using hturn
    next h => exact .wait (by simpa using h)

theorem comb_active (hs : s.regs.state = .active) :
    ∃ c, Turn p s i (tick s i) c ∧ comb p s i = finish s c :=
  ⟨_, active_turn (tick s i), by simp [comb, arm, hs]⟩

section Accumulate

variable (e : Entry) (es : List Entry) (c : Comb)

/-- `accumulate` only sets the FCSR outputs. -/
theorem accumulate_frame :
    ∃ w a f, accumulate e es c = { c with fcsrWe := w, fcsrCause6 := a, fcsrFlags5 := f } := by
  unfold accumulate
  dsimp only
  split
  · split <;> exact ⟨_, _, _, rfl⟩
  · split <;> split <;> exact ⟨_, _, _, rfl⟩

@[simp] theorem accumulate_n : (accumulate e es c).n = c.n := by
  obtain ⟨w, a, f, h⟩ := accumulate_frame e es c
  rw [h]

@[simp] theorem accumulate_alloc : (accumulate e es c).alloc = c.alloc := by
  obtain ⟨w, a, f, h⟩ := accumulate_frame e es c
  rw [h]

@[simp] theorem accumulate_allocTwo : (accumulate e es c).allocTwo = c.allocTwo := by
  obtain ⟨w, a, f, h⟩ := accumulate_frame e es c
  rw [h]

@[simp] theorem accumulate_retire : (accumulate e es c).retire = c.retire := by
  obtain ⟨w, a, f, h⟩ := accumulate_frame e es c
  rw [h]

@[simp] theorem accumulate_retireTwo : (accumulate e es c).retireTwo = c.retireTwo := by
  obtain ⟨w, a, f, h⟩ := accumulate_frame e es c
  rw [h]

@[simp] theorem accumulate_bumpRobHead : (accumulate e es c).bumpRobHead = c.bumpRobHead := by
  obtain ⟨w, a, f, h⟩ := accumulate_frame e es c
  rw [h]

@[simp] theorem accumulate_clrRob : (accumulate e es c).clrRob = c.clrRob := by
  obtain ⟨w, a, f, h⟩ := accumulate_frame e es c
  rw [h]

@[simp] theorem accumulate_clrDq : (accumulate e es c).clrDq = c.clrDq := by
  obtain ⟨w, a, f, h⟩ := accumulate_frame e es c
  rw [h]

end Accumulate

/-- What the allocation in `ACTIVE` does. -/
theorem allocate_cases (c : Comb) :
    (s.dq = [] ∨ (∃ u us, s.dq = u :: us ∧ u.serializingOp = true) ∧ s.rob ≠ []) ∧
        allocate p s i c = c ∨
      s.rob = [] ∧ (∃ u us, s.dq = u :: us ∧ u.serializingOp = true) ∧
        allocate p s i c = { c with n := { c.n with state := .allocForSerialize } } ∨
      (∃ u us, s.dq = u :: us ∧ u.serializingOp = false) ∧
        allocate p s i c =
          { c with alloc := canAlloc p s i, allocTwo := canAllocTwo p s i } := by
  unfold allocate
  split
  next hq => exact .inl ⟨.inl hq, rfl⟩
  next u us hq =>
    cases hser : u.serializingOp with
    | false => exact .inr (.inr ⟨⟨u, us, hq, hser⟩, by simp⟩)
    | true =>
      cases hrob : s.rob with
      | nil => exact .inr (.inl ⟨rfl, ⟨u, us, hq, hser⟩, by simp⟩)
      | cons e es => exact .inl ⟨.inr ⟨⟨u, us, hq, hser⟩, by simp⟩, by simp⟩

theorem canAllocTwo_spec (h : canAllocTwo p s i = true) :
    ∃ u v us, s.dq = u :: v :: us ∧ canAlloc p s i = true ∧ (u.isBr = false ∨ v.isBr = false) ∧
      u.oldestFirst = false ∧ v.serializingOp = false ∧ v.oldestFirst = false ∧
      s.rob.length + 1 < p.robEntries ∧ i.enoughNext = true := by
  unfold canAllocTwo at h
  split at h
  next u v us hq =>
    simp only [Bool.and_eq_true, Bool.or_eq_true, Bool.not_eq_true', decide_eq_true_eq] at h
    obtain ⟨⟨⟨⟨⟨⟨⟨hc, hbr⟩, ho⟩, hs⟩, ho2⟩, hl⟩, -⟩, he⟩ := h
    exact ⟨u, v, us, hq, hc, hbr, ho, hs, ho2, hl, he⟩
  next => cases h

theorem canAlloc_spec (h : canAlloc p s i = true) :
    s.rob.length < p.robEntries ∧ s.dq ≠ [] ∧ i.enough = true ∧
      s.regs.oldestFirstPending = false ∧
      (s.regs.pendingFault = true → s.regs.inDelaySlot = true) := by
  simp only [canAlloc, room, Bool.and_eq_true, Bool.or_eq_true, Bool.not_eq_true',
    decide_eq_true_eq, List.isEmpty_eq_false_iff] at h
  obtain ⟨⟨⟨⟨⟨hl, -⟩, hq⟩, he⟩, ho⟩, hf⟩ := h
  exact ⟨hl, hq, he, ho, fun ht => hf.resolve_left (by simp [ht])⟩

/-! ## The shape of the reorder buffer -/

/-- A complete, faulted branch: its slot must be waited for. -/
structure Entry.Mispredicted (b : Entry) : Prop where
  done : b.done = true
  faulted : b.faulted = true
  slot : b.uop.hasDelaySlot = true

/-- What the reorder buffer and the decode queue hold in each state. -/
def Fits (s : State) : Prop :=
  match s.regs.state with
  | .active | .rat | .writeEpc | .exceptionDrain | .dead => True
  | .flushForHalt | .halt | .haltWaitForRestart => s.rob = []
  | .allocForSerialize => s.rob = [] ∧ ∃ u us, s.dq = u :: us ∧ u.serializingOp = true
  | .waitForSerializeAndRestart => ∃ e, s.rob = [e] ∧ e.uop.serializingOp = true
  | .cacheFlush =>
    ∃ e, s.rob = [e] ∧ e.done = true ∧ (e.uop.op = .cacheOp ∨ e.uop.op.isXflush = true)
  | .drain => s.regs.dsDone = false → s.regs.hasDelaySlot = true ∧ s.rob ≠ []
  | .archFault => ∃ e es, s.rob = e :: es ∧ e.done = true ∧ e.faulted = true
  | .serializeInFaultedDelaySlot =>
    ∃ b, s.rob = [b] ∧ b.Mispredicted ∧ ∃ u us, s.dq = u :: us ∧ u.serializingOp = true
  | .waitForSerializeInFaultedDelaySlot =>
    ∃ b e, s.rob = [b, e] ∧ b.Mispredicted ∧ e.uop.serializingOp = true

theorem nextRob_hold {c : Comb} (hc : c.clrRob = false) (hr : c.retire = false)
    (hb : c.bumpRobHead = false) (ha : c.alloc = false) : nextRob s i c = progress s i := by
  simp [nextRob, leaving, hc, hr, hb, newEntries_nil ha]

theorem nextDq_head {c : Comb} {u : Uop} {us : List Uop} (hq : s.dq = u :: us)
    (hc : c.clrDq = false) (ha : c.alloc = false) :
    ∃ vs, (if c.clrDq then [] else s.dq.drop (allocating c) ++ decoded s i (pushed p s i c)) =
      u :: vs := by
  simp [hc, allocating, ha, hq]

theorem fits_active (hs : s.regs.state = .active) : Fits (next p s i) := by
  obtain ⟨c, hturn, hcomb⟩ := comb_active (p := p) (i := i) hs
  cases hturn with
  | detour b u us hrob hdone hslot hfault hdq hser =>
    have hr : nextRob s i (comb p s i) = [b.next s i 0] := by
      rw [nextRob_hold (by simp [hcomb, finish]) (by simp [hcomb, finish])
        (by simp [hcomb, finish]) (by simp [hcomb, finish])]
      simp [progress, hrob]
    obtain ⟨vs, hv⟩ := nextDq_head (p := p) (i := i) (c := comb p s i) hdq
      (by simp [hcomb, finish]) (by simp [hcomb, finish])
    have hst : (next p s i).regs.state = .serializeInFaultedDelaySlot := by
      simp [next, hcomb, finish]
    simp only [Fits, hst]
    refine ⟨b, ?_, ⟨hdone, hfault, hslot⟩, u, vs, hv, hser⟩
    rw [Entry.next_of_done hdone] at hr
    exact hr
  | fault e es hrob hdone hfault harch =>
    have hst : (next p s i).regs.state = .archFault := by
      simp [next, hcomb, finish, faultedHead, harch]
    have hr : nextRob s i (comb p s i) = progress s i := by
      apply nextRob_hold <;> simp [hcomb, finish, faultedHead, harch]
    simp only [Fits, hst]
    refine ⟨e, (progress s i).tail, ?_, hdone, hfault⟩
    change nextRob s i (comb p s i) = _
    rw [hr]
    simp [progress, hrob, Entry.next_of_done hdone]
  | restart e es hrob hdone hfault harch hnull hslot =>
    have hst : (next p s i).regs.state = .drain := by
      simp [next, hcomb, finish, faultedHead, harch]
    simp only [Fits, hst]
    intro hd
    have hds : e.uop.hasDelaySlot = true := by
      simpa [next, hcomb, finish, faultedHead, harch] using hd
    have hes : es ≠ [] := by
      cases hn : e.uop.hasNullifyingDelaySlot with
      | true => exact hnull hn
      | false =>
        obtain ⟨f, fs, rfl, -⟩ := hslot hn hds
        exact List.cons_ne_nil f fs
    refine ⟨by simp [next, hcomb, finish, faultedHead, harch, hds], ?_⟩
    have hlen : (next p s i).rob.length ≠ 0 := by
      simp [next, nextRob, leaving, hcomb, finish, faultedHead, harch, hrob, newEntries, hes]
    exact fun h => hlen (by rw [h]; rfl)
  | retire e es hrob hdone hfault =>
    have hst : (next p s i).regs.state = .active := by
      obtain ⟨-, h⟩ | ⟨h, -⟩ | ⟨-, h⟩ := allocate_cases (p := p) (s := s) (i := i) (tick s i)
      · simp [next, hcomb, finish, h, hs]
      · simp [hrob] at h
      · simp [next, hcomb, finish, h, hs]
    simp only [Fits, hst]
  | wait hno =>
    obtain ⟨-, h⟩ | ⟨hrob, ⟨u, us, hdq, hser⟩, h⟩ | ⟨-, h⟩ :=
      allocate_cases (p := p) (s := s) (i := i) (tick s i)
    · have hst : (next p s i).regs.state = .active := by simp [next, hcomb, finish, h, hs]
      simp only [Fits, hst]
    · have hst : (next p s i).regs.state = .allocForSerialize := by
        simp [next, hcomb, finish, h]
      have hr : nextRob s i (comb p s i) = progress s i := by
        apply nextRob_hold <;> simp [hcomb, finish, h]
      obtain ⟨vs, hv⟩ := nextDq_head (p := p) (i := i) (c := comb p s i) hdq
        (by simp [hcomb, finish, h]) (by simp [hcomb, finish, h])
      simp only [Fits, hst]
      refine ⟨?_, u, vs, hv, hser⟩
      change nextRob s i (comb p s i) = []
      rw [hr]
      simp [progress, hrob]
    · have hst : (next p s i).regs.state = .active := by simp [next, hcomb, finish, h, hs]
      simp only [Fits, hst]

/-- A serializing operation is allocated alone. -/
theorem allocAlone_cases (w : FsmState) (c : Comb) :
    allocAlone p s i w c = c ∨
      (room p s i = true ∧ allocAlone p s i w c =
        { c with alloc := true, n := { c.n with state := w } }) := by
  unfold allocAlone
  split
  next h => exact .inr ⟨h, rfl⟩
  next => exact .inl rfl

/-- What `DRAIN` does in a cycle, with the conditions it does it under. -/
inductive Drain (s : State) (i : Input) (c : Comb) : Comb → Prop where
  /-- The slot is still awaited, or the pipes are. -/
  | wait : Drain s i c c
  /-- The pipes have drained. -/
  | rat (hds : s.regs.dsDone = true) (hdr : i.drained = true) :
      Drain s i c { c with n := { c.n with state := .rat } }
  /-- The nullified slot is dropped. -/
  | nullify (e : Entry) (es : List Entry) (hrob : s.rob = e :: es) (hds : s.regs.dsDone = false)
      (hnull : s.regs.hasNullifyingDelaySlot = true) (hbr : s.regs.takeBr = false) :
      Drain s i c { c with n := { c.n with dsDone := true } }
  /-- The slot takes an architectural fault. -/
  | fault (e : Entry) (es : List Entry) (hrob : s.rob = e :: es) (hds : s.regs.dsDone = false)
      (hdone : e.done = true) (harch : e.archFault = true)
      (hbr : s.regs.hasNullifyingDelaySlot = true → s.regs.takeBr = true) (m : Bool)
      (r : BitVec 64) :
      Drain s i c
        { c with
          n := { c.n with dsDone := true, state := .archFault, machineClr := m, restartPc := r } }
  /-- The slot retires. -/
  | retire (e : Entry) (es : List Entry) (hrob : s.rob = e :: es) (hds : s.regs.dsDone = false)
      (hdone : e.done = true) (harch : e.archFault = false)
      (hbr : s.regs.hasNullifyingDelaySlot = true → s.regs.takeBr = true) :
      Drain s i c { c with retire := true, n := { c.n with dsDone := true } }

theorem drain_turn (c : Comb) : Drain s i c (drain s i c) := by
  unfold drain
  cases hds : s.regs.dsDone with
  | true =>
    have hslot : drainHead s c = c := by
      unfold drainHead
      split
      · rfl
      · simp [drainSlot, hds]
    rw [hslot]
    cases hdr : i.drained with
    | true => exact .rat hds hdr
    | false => exact .wait
  | false =>
    rw [Bool.and_false, if_neg Bool.false_ne_true]
    unfold drainHead
    split
    next => exact .wait
    next e es hrob =>
      unfold drainSlot
      dsimp only
      split
      next h =>
        simp only [Bool.and_eq_true, Bool.or_eq_true, Bool.not_eq_true'] at h
        obtain ⟨⟨hnull, hdone⟩, -⟩ := h
        cases hbr : s.regs.takeBr with
        | false => exact .nullify e es hrob hds hnull hbr
        | true =>
          have hdone : e.done = true := hdone.resolve_right (by simp [hbr])
          cases harch : e.archFault with
          | true => exact .fault e es hrob hds hdone harch (fun _ => hbr) _ _
          | false => exact .retire e es hrob hds hdone harch fun _ => hbr
      next h =>
        split
        next h' =>
          simp only [Bool.and_eq_true, Bool.not_eq_true'] at h'
          obtain ⟨⟨-, hdone⟩, -⟩ := h'
          -- A branch-likely with a complete slot is the first arm's.
          have hbr : s.regs.hasNullifyingDelaySlot = true → s.regs.takeBr = true := by
            intro hn
            simp [hn, hdone, hds] at h
          cases harch : e.archFault with
          | true => exact .fault e es hrob hds hdone harch hbr _ _
          | false => exact .retire e es hrob hds hdone harch hbr
        next => exact .wait

theorem comb_drain (hs : s.regs.state = .drain) :
    ∃ c, Drain s i (tick s i) c ∧ comb p s i = finish s c :=
  ⟨_, drain_turn (tick s i), by simp [comb, arm, hs]⟩

theorem archFault_faulted {e : Entry} (h : e.archFault = true) : e.faulted = true := by
  simp only [Entry.archFault, Bool.and_eq_true] at h
  exact h.1

theorem fits_drain (h : Fits s) (hs : s.regs.state = .drain) : Fits (next p s i) := by
  obtain ⟨c, hturn, hcomb⟩ := comb_drain (p := p) (i := i) hs
  simp only [Fits, hs] at h
  cases hturn with
  | wait =>
    have hst : (next p s i).regs.state = .drain := by simp [next, hcomb, finish, hs]
    simp only [Fits, hst]
    intro hd
    obtain ⟨hhas, hrob⟩ := h (by simpa [next, hcomb, finish] using hd)
    refine ⟨by simpa [next, hcomb, finish, tick] using hhas, ?_⟩
    change nextRob s i (comb p s i) ≠ []
    rw [nextRob_hold (by simp [hcomb, finish]) (by simp [hcomb, finish])
      (by simp [hcomb, finish]) (by simp [hcomb, finish])]
    simpa [progress] using hrob
  | rat hds hdr =>
    have hst : (next p s i).regs.state = .rat := by simp [next, hcomb, finish]
    simp only [Fits, hst]
  | nullify e es hrob hds hnull hbr =>
    have hst : (next p s i).regs.state = .drain := by simp [next, hcomb, finish, hs]
    have hd : (next p s i).regs.dsDone = true := by simp [next, hcomb, finish]
    simp only [Fits, hst, hd]
    exact nofun
  | fault e es hrob hds hdone harch hbr m r =>
    have hst : (next p s i).regs.state = .archFault := by simp [next, hcomb, finish]
    have hr : nextRob s i (comb p s i) = progress s i := by
      apply nextRob_hold <;> simp [hcomb, finish]
    simp only [Fits, hst]
    refine ⟨e, (progress s i).tail, ?_, hdone, archFault_faulted harch⟩
    change nextRob s i (comb p s i) = _
    rw [hr]
    simp [progress, hrob, Entry.next_of_done hdone]
  | retire e es hrob hds hdone harch hbr =>
    have hst : (next p s i).regs.state = .drain := by simp [next, hcomb, finish, hs]
    have hd : (next p s i).regs.dsDone = true := by simp [next, hcomb, finish]
    simp only [Fits, hst, hd]
    exact nofun

theorem room_spec (h : room p s i = true) :
    s.rob.length < p.robEntries ∧ s.dq ≠ [] ∧ i.enough = true := by
  simp only [room, Bool.and_eq_true, Bool.not_eq_true', decide_eq_true_eq,
    List.isEmpty_eq_false_iff] at h
  exact ⟨h.1.1.1, h.1.2, h.2⟩

/-- A flush request only sets registers. -/
theorem requestFlush_frame (e : Entry) (c : Comb) :
    ∃ n, requestFlush p s e c = { c with n := n } ∧ n.state = .cacheFlush := by
  unfold requestFlush
  dsimp only
  split
  · exact ⟨_, rfl, rfl⟩
  split
  · exact ⟨_, rfl, rfl⟩
  split
  · exact ⟨_, rfl, rfl⟩
  · exact ⟨_, rfl, rfl⟩

/-- What the wait for a serializing operation does. -/
inductive Serial (p : Params) (s : State) (e : Entry) (c : Comb) : Comb → Prop where
  | wait (hdone : e.done = false) : Serial p s e c c
  | flush (hdone : e.done = true) (hop : e.uop.op = .cacheOp ∨ e.uop.op.isXflush = true) :
      Serial p s e c (requestFlush p s e c)
  | restart (hdone : e.done = true) (hop : e.uop.op ≠ .cacheOp) (hx : e.uop.op.isXflush = false)
      (hack : c.n.gotRestartAck = false) : Serial p s e c (restartAfter (resumeAt s e) c)
  | resume (hdone : e.done = true) (hop : e.uop.op ≠ .cacheOp) (hx : e.uop.op.isXflush = false)
      (hack : c.n.gotRestartAck = true) :
      Serial p s e c
        { restartAfter (resumeAt s e) c with
          n := { (restartAfter (resumeAt s e) c).n with state := .active } }

theorem serial_turn {e : Entry} {es : List Entry} (hrob : s.rob = e :: es) (c : Comb) :
    Serial p s e c (waitForSerialize p s c) := by
  simp only [waitForSerialize, hrob]
  split
  next hdone =>
    split
    next hop =>
      simp only [Bool.or_eq_true, decide_eq_true_eq] at hop
      exact .flush hdone hop
    next hop =>
      simp only [Bool.or_eq_true, decide_eq_true_eq, not_or, Bool.not_eq_true] at hop
      split
      next hack => exact .resume hdone hop.1 hop.2 hack
      next hack => exact .restart hdone hop.1 hop.2 (by simpa [restartAfter] using hack)
  next hdone => exact .wait (by simpa using hdone)

/-- What `CACHE_FLUSH` does. -/
inductive Flush (s : State) (e : Entry) (c : Comb) : Comb → Prop where
  | wait (hall : allFlushed c = false) : Flush s e c c
  | restart (hall : allFlushed c = true) (hack : c.n.gotRestartAck = false) :
      Flush s e c (restartAfter (if e.uop.op.isXflush then e.uop.pc else resumeAt s e) c)
  | resume (hall : allFlushed c = true) (hack : c.n.gotRestartAck = true) (n : Regs)
      (hn : n = { (restartAfter (if e.uop.op.isXflush then e.uop.pc else resumeAt s e) c).n with
        l1iFlushComplete := false
        l1dFlushComplete := false
        l2FlushComplete := false
        state := .active
        xflushPend := if e.uop.op.isXflush then false else c.n.xflushPend
        xflushDone := if e.uop.op.isXflush then true else c.n.xflushDone }) :
      Flush s e c
        { restartAfter (if e.uop.op.isXflush then e.uop.pc else resumeAt s e) c with n := n }

theorem flush_turn {e : Entry} {es : List Entry} (hrob : s.rob = e :: es) (c : Comb) :
    Flush s e c (cacheFlush s c) := by
  cases hall : allFlushed c with
  | false => simpa [cacheFlush, hrob, hall] using Flush.wait (s := s) (e := e) hall
  | true =>
    cases hack : c.n.gotRestartAck with
    | false =>
      have h := Flush.restart (s := s) (e := e) hall hack
      simpa [cacheFlush, hrob, hall, hack, restartAfter] using h
    | true =>
      have h := Flush.resume (s := s) (e := e) hall hack _ rfl
      cases hx : e.uop.op.isXflush with
      | false => simpa [cacheFlush, hrob, hall, hack, hx, restartAfter] using h
      | true => simpa [cacheFlush, hrob, hall, hack, hx, restartAfter] using h

theorem fits_next (hok : RobOk s) (h : Fits s) : Fits (next p s i) := by
  cases hs : s.regs.state with
  | active => exact fits_active hs
  | drain => exact fits_drain h hs
  | rat =>
    have hcomb : comb p s i = finish s (rat (tick s i)) := by simp [comb, arm, hs]
    have hst : (next p s i).regs.state = .active ∨ (next p s i).regs.state = .rat := by
      simp only [next, hcomb, finish, rat]
      split
      · exact .inl rfl
      · exact .inr hs
    obtain hst | hst := hst <;> simp only [Fits, hst]
  | exceptionDrain =>
    have hcomb : comb p s i = finish s (exceptionDrain i (tick s i)) := by simp [comb, arm, hs]
    have hst : (next p s i).regs.state = .rat ∨ (next p s i).regs.state = .exceptionDrain := by
      simp only [next, hcomb, finish, exceptionDrain]
      split
      · exact .inl rfl
      · exact .inr hs
    obtain hst | hst := hst <;> simp only [Fits, hst]
  | writeEpc =>
    have hst : (next p s i).regs.state = .exceptionDrain := by
      simp [next, comb, arm, hs, writeEpc, finish]
    simp only [Fits, hst]
  | dead =>
    have hst : (next p s i).regs.state = .dead := by simp [next, comb, arm, hs, finish]
    simp only [Fits, hst]
  | archFault =>
    have hst : (next p s i).regs.state = .writeEpc := by
      simp only [next, comb, arm, hs, finish, archFault]
      split <;> rfl
    simp only [Fits, hst]
  | allocForSerialize =>
    have hcomb : comb p s i =
        finish s (allocAlone p s i .waitForSerializeAndRestart (tick s i)) := by
      simp [comb, arm, hs]
    simp only [Fits, hs] at h
    obtain ⟨hrob, u, us, hdq, hser⟩ := h
    obtain h | ⟨hroom, h⟩ := allocAlone_cases (p := p) (s := s) (i := i)
      .waitForSerializeAndRestart (tick s i)
    · have hst : (next p s i).regs.state = .allocForSerialize := by
        simp [next, hcomb, h, finish, hs]
      have hr : nextRob s i (comb p s i) = progress s i := by
        apply nextRob_hold <;> simp [hcomb, finish, h]
      obtain ⟨vs, hv⟩ := nextDq_head (p := p) (i := i) (c := comb p s i) hdq
        (by simp [hcomb, finish, h]) (by simp [hcomb, finish, h])
      simp only [Fits, hst]
      refine ⟨?_, u, vs, hv, hser⟩
      change nextRob s i (comb p s i) = []
      rw [hr]
      simp [progress, hrob]
    · have hst : (next p s i).regs.state = .waitForSerializeAndRestart := by
        simp [next, hcomb, h, finish]
      simp only [Fits, hst]
      refine ⟨Entry.alloc u s.regs.inDelaySlot i.tag, ?_, hser⟩
      change nextRob s i (comb p s i) = _
      rw [nextRob, newEntries_cons hdq (by simp [hcomb, finish, h]) (by simp [hcomb, finish, h])]
      simp [hcomb, finish, h, leaving, progress, hrob]
  | waitForSerializeAndRestart =>
    have hcomb : comb p s i = finish s (waitForSerialize p s (tick s i)) := by
      simp [comb, arm, hs]
    simp only [Fits, hs] at h
    obtain ⟨e, hrob, hser⟩ := h
    have hturn := serial_turn (p := p) hrob (tick s i)
    revert hcomb
    generalize waitForSerialize p s (tick s i) = c at hturn
    intro hcomb
    cases hturn with
    | wait hdone =>
      have hst : (next p s i).regs.state = .waitForSerializeAndRestart := by
        simp [next, hcomb, finish, hs]
      have hr : nextRob s i (comb p s i) = progress s i := by
        apply nextRob_hold <;> simp [hcomb, finish]
      simp only [Fits, hst]
      refine ⟨e.next s i 0, ?_, by simpa using hser⟩
      change nextRob s i (comb p s i) = _
      rw [hr]
      simp [progress, hrob]
    | flush hdone hop =>
      obtain ⟨n, hf, hn⟩ := requestFlush_frame (p := p) (s := s) e (tick s i)
      have hst : (next p s i).regs.state = .cacheFlush := by simp [next, hcomb, finish, hf, hn]
      have hr : nextRob s i (comb p s i) = progress s i := by
        apply nextRob_hold <;> simp [hcomb, finish, hf]
      simp only [Fits, hst]
      refine ⟨e, ?_, hdone, hop⟩
      change nextRob s i (comb p s i) = _
      rw [hr]
      simp [progress, hrob, Entry.next_of_done hdone]
    | restart hdone hop hx hack =>
      have hst : (next p s i).regs.state = .waitForSerializeAndRestart := by
        simp [next, hcomb, finish, hs, restartAfter]
      have hr : nextRob s i (comb p s i) = progress s i := by
        apply nextRob_hold <;> simp [hcomb, finish, restartAfter]
      simp only [Fits, hst]
      refine ⟨e, ?_, hser⟩
      change nextRob s i (comb p s i) = _
      rw [hr]
      simp [progress, hrob, Entry.next_of_done hdone]
    | resume hdone hop hx hack =>
      have hst : (next p s i).regs.state = .active := by simp [next, hcomb, finish]
      simp only [Fits, hst]
  | cacheFlush =>
    have hcomb : comb p s i = finish s (cacheFlush s (tick s i)) := by simp [comb, arm, hs]
    simp only [Fits, hs] at h
    obtain ⟨e, hrob, hdone, hop⟩ := h
    have hturn := flush_turn hrob (tick s i)
    revert hcomb
    generalize cacheFlush s (tick s i) = c at hturn
    intro hcomb
    have stay (hst : (next p s i).regs.state = .cacheFlush)
        (hr : nextRob s i (comb p s i) = progress s i) : Fits (next p s i) := by
      simp only [Fits, hst]
      refine ⟨e, ?_, hdone, hop⟩
      change nextRob s i (comb p s i) = _
      rw [hr]
      simp [progress, hrob, Entry.next_of_done hdone]
    cases hturn with
    | wait hall =>
      refine stay (by simp [next, hcomb, finish, hs]) ?_
      apply nextRob_hold <;> simp [hcomb, finish]
    | restart hall hack =>
      refine stay (by simp [next, hcomb, finish, hs, restartAfter]) ?_
      apply nextRob_hold <;> simp [hcomb, finish, restartAfter]
    | resume hall hack n hn =>
      have hst : (next p s i).regs.state = .active := by simp [next, hcomb, finish, hn]
      simp only [Fits, hst]
  | flushForHalt =>
    simp only [Fits, hs] at h
    have hr : (next p s i).rob = [] := by
      simp only [next, comb, arm, hs, finish, flushForHalt]
      split <;> simp [nextRob, leaving, progress, h, newEntries_nil]
    have hst : (next p s i).regs.state = .halt ∨ (next p s i).regs.state = .flushForHalt := by
      simp only [next, comb, arm, hs, finish, flushForHalt]
      split
      · exact .inl rfl
      · exact .inr hs
    obtain hst | hst := hst <;> simpa only [Fits, hst] using hr
  | halt =>
    simp only [Fits, hs] at h
    have hr : (next p s i).rob = [] := by
      simp only [next, comb, arm, hs, finish, halt]
      split <;> simp [nextRob, leaving, progress, h, newEntries_nil]
    have hst : (next p s i).regs.state = .haltWaitForRestart ∨
        (next p s i).regs.state = .halt := by
      simp only [next, comb, arm, hs, finish, halt]
      split
      · exact .inl rfl
      · exact .inr hs
    obtain hst | hst := hst <;> simpa only [Fits, hst] using hr
  | haltWaitForRestart =>
    simp only [Fits, hs] at h
    have hr : (next p s i).rob = [] := by
      simp only [next, comb, arm, hs, finish, haltWaitForRestart]
      split <;> simp [nextRob, leaving, progress, h, newEntries_nil]
    have hst : (next p s i).regs.state = .active ∨
        (next p s i).regs.state = .haltWaitForRestart := by
      simp only [next, comb, arm, hs, finish, haltWaitForRestart]
      split
      · exact .inl rfl
      · exact .inr hs
    obtain hst | hst := hst
    · simp only [Fits, hst]
    · simpa only [Fits, hst] using hr
  | serializeInFaultedDelaySlot =>
    have hcomb : comb p s i =
        finish s (allocAlone p s i .waitForSerializeInFaultedDelaySlot (tick s i)) := by
      simp [comb, arm, hs]
    simp only [Fits, hs] at h
    obtain ⟨b, hrob, hb, u, us, hdq, hser⟩ := h
    obtain h | ⟨hroom, h⟩ := allocAlone_cases (p := p) (s := s) (i := i)
      .waitForSerializeInFaultedDelaySlot (tick s i)
    · have hst : (next p s i).regs.state = .serializeInFaultedDelaySlot := by
        simp [next, hcomb, h, finish, hs]
      have hr : nextRob s i (comb p s i) = progress s i := by
        apply nextRob_hold <;> simp [hcomb, finish, h]
      obtain ⟨vs, hv⟩ := nextDq_head (p := p) (i := i) (c := comb p s i) hdq
        (by simp [hcomb, finish, h]) (by simp [hcomb, finish, h])
      simp only [Fits, hst]
      refine ⟨b, ?_, hb, u, vs, hv, hser⟩
      change nextRob s i (comb p s i) = _
      rw [hr]
      simp [progress, hrob, Entry.next_of_done hb.done]
    · have hst : (next p s i).regs.state = .waitForSerializeInFaultedDelaySlot := by
        simp [next, hcomb, h, finish]
      simp only [Fits, hst]
      refine ⟨b, Entry.alloc u s.regs.inDelaySlot i.tag, ?_, hb, hser⟩
      change nextRob s i (comb p s i) = _
      rw [nextRob, newEntries_cons hdq (by simp [hcomb, finish, h]) (by simp [hcomb, finish, h])]
      simp [hcomb, finish, h, leaving, progress, hrob, Entry.next_of_done hb.done]
  | waitForSerializeInFaultedDelaySlot =>
    have hcomb : comb p s i = finish s (waitInSlot s (tick s i)) := by simp [comb, arm, hs]
    simp only [Fits, hs] at h
    obtain ⟨b, e, hrob, hb, hser⟩ := h
    have hq : e.faulted = false := (hok e (by simp [hrob])).quiet (e.uop.ok.serializing hser)
    cases hdone : e.done with
    | true =>
      have hst : (next p s i).regs.state = .active := by
        simp [next, hcomb, finish, waitInSlot, hrob, hdone, hq]
      simp only [Fits, hst]
    | false =>
      have hst : (next p s i).regs.state = .waitForSerializeInFaultedDelaySlot := by
        simp [next, hcomb, finish, waitInSlot, hrob, hdone, hs]
      have hr : nextRob s i (comb p s i) = progress s i := by
        apply nextRob_hold <;> simp [hcomb, finish, waitInSlot, hrob, hdone]
      simp only [Fits, hst]
      refine ⟨b, e.next s i 1, ?_, hb, by simpa using hser⟩
      change nextRob s i (comb p s i) = _
      rw [hr]
      simp [progress, hrob, Entry.next_of_done hb.done]

/-! ## The kinds of states -/

/-- The outputs that move entries or write FCSR are all off. -/
structure Comb.Still (c : Comb) : Prop where
  alloc : c.alloc = false
  allocTwo : c.allocTwo = false
  retire : c.retire = false
  retireTwo : c.retireTwo = false
  bumpRobHead : c.bumpRobHead = false
  clrRob : c.clrRob = false
  fcsrWe : c.fcsrWe = false

theorem tick_still : (tick s i).Still := ⟨rfl, rfl, rfl, rfl, rfl, rfl, rfl⟩

/-- The states that only wait. -/
def FsmState.still : FsmState → Bool
  | .waitForSerializeAndRestart | .cacheFlush | .waitForSerializeInFaultedDelaySlot
  | .exceptionDrain | .flushForHalt | .halt | .haltWaitForRestart | .writeEpc | .dead => true
  | _ => false

theorem FsmState.kinds (st : FsmState) :
    st = .active ∨ st = .drain ∨ st = .rat ∨ st = .archFault ∨ st = .allocForSerialize ∨
      st = .serializeInFaultedDelaySlot ∨ st.still = true := by
  cases st <;> simp [FsmState.still]

theorem comb_still (hok : RobOk s) (h : Fits s) (hs : s.regs.state.still = true) :
    (comb p s i).Still := by
  have hq := tick_still (s := s) (i := i)
  suffices (arm p s i (tick s i)).Still from
    ⟨this.alloc, this.allocTwo, this.retire, this.retireTwo, this.bumpRobHead, this.clrRob,
      this.fcsrWe⟩
  cases hst : s.regs.state with
  | waitForSerializeAndRestart =>
    simp only [Fits, hst] at h
    obtain ⟨e, hrob, -⟩ := h
    have hturn := serial_turn (p := p) hrob (tick s i)
    simp only [arm, hst]
    generalize waitForSerialize p s (tick s i) = c at hturn
    cases hturn with
    | wait => exact hq
    | flush =>
      obtain ⟨n, hf, -⟩ := requestFlush_frame (p := p) (s := s) e (tick s i)
      rw [hf]
      exact ⟨rfl, rfl, rfl, rfl, rfl, rfl, rfl⟩
    | restart => exact ⟨rfl, rfl, rfl, rfl, rfl, rfl, rfl⟩
    | resume => exact ⟨rfl, rfl, rfl, rfl, rfl, rfl, rfl⟩
  | cacheFlush =>
    simp only [Fits, hst] at h
    obtain ⟨e, hrob, -⟩ := h
    have hturn := flush_turn hrob (tick s i)
    simp only [arm, hst]
    generalize cacheFlush s (tick s i) = c at hturn
    cases hturn <;> exact ⟨rfl, rfl, rfl, rfl, rfl, rfl, rfl⟩
  | waitForSerializeInFaultedDelaySlot =>
    simp only [Fits, hst] at h
    obtain ⟨b, e, hrob, -, hser⟩ := h
    have hquiet := (hok e (by simp [hrob])).quiet (e.uop.ok.serializing hser)
    simp only [arm, hst, waitInSlot, hrob, hquiet]
    split
    · exact ⟨rfl, rfl, rfl, rfl, rfl, rfl, rfl⟩
    · exact hq
  | exceptionDrain =>
    simp only [arm, hst, exceptionDrain]
    split <;> exact ⟨rfl, rfl, rfl, rfl, rfl, rfl, rfl⟩
  | flushForHalt =>
    simp only [arm, hst, flushForHalt]
    split <;> exact ⟨rfl, rfl, rfl, rfl, rfl, rfl, rfl⟩
  | halt =>
    simp only [arm, hst, halt]
    split <;> exact ⟨rfl, rfl, rfl, rfl, rfl, rfl, rfl⟩
  | haltWaitForRestart =>
    simp only [arm, hst, haltWaitForRestart]
    split <;> exact ⟨rfl, rfl, rfl, rfl, rfl, rfl, rfl⟩
  | writeEpc =>
    simp only [arm, hst, writeEpc]
    exact ⟨rfl, rfl, rfl, rfl, rfl, rfl, rfl⟩
  | dead =>
    simp only [arm, hst]
    exact hq
  | active | drain | rat | archFault | allocForSerialize | serializeInFaultedDelaySlot =>
    simp [hst, FsmState.still] at hs

theorem Comb.Still.rob {c : Comb} (h : c.Still) : nextRob s i c = progress s i :=
  nextRob_hold h.clrRob h.retire h.bumpRobHead h.alloc

theorem comb_rat (hs : s.regs.state = .rat) : comb p s i = finish s (rat (tick s i)) := by
  simp [comb, arm, hs]

theorem comb_archFault (hs : s.regs.state = .archFault) :
    comb p s i = finish s (archFault s i (tick s i)) := by simp [comb, arm, hs]

theorem clrRob_rat (hs : s.regs.state = .rat) : (comb p s i).clrRob = true := by
  simp only [comb_rat hs, finish, rat]
  split <;> rfl

/-- The two states that allocate a serializing operation. -/
theorem alone_turn {w : FsmState}
    (hs : s.regs.state = .allocForSerialize ∧ w = .waitForSerializeAndRestart ∨
      s.regs.state = .serializeInFaultedDelaySlot ∧ w = .waitForSerializeInFaultedDelaySlot) :
    comb p s i = finish s (tick s i) ∨
      (room p s i = true ∧ comb p s i =
        finish s { tick s i with alloc := true, n := { (tick s i).n with state := w } }) := by
  have hcomb : comb p s i = finish s (allocAlone p s i w (tick s i)) := by
    obtain ⟨hs, rfl⟩ | ⟨hs, rfl⟩ := hs <;> simp [comb, arm, hs]
  obtain h | ⟨hr, h⟩ := allocAlone_cases (p := p) (s := s) (i := i) w (tick s i)
  · exact .inl (by rw [hcomb, h])
  · exact .inr ⟨hr, by rw [hcomb, h]⟩

/-- The states and the conditions in which the core allocates. -/
theorem alloc_cases (hok : RobOk s) (h : Fits s) (ha : (comb p s i).alloc = true) :
    (s.regs.state = .active ∧ canAlloc p s i = true ∧
        (∃ u us, s.dq = u :: us ∧ u.serializingOp = false) ∧
        (comb p s i).allocTwo = canAllocTwo p s i) ∨
      ((s.regs.state = .allocForSerialize ∨ s.regs.state = .serializeInFaultedDelaySlot) ∧
        room p s i = true ∧ (comb p s i).allocTwo = false) := by
  have alone {w : FsmState}
      (hs : s.regs.state = .allocForSerialize ∧ w = .waitForSerializeAndRestart ∨
        s.regs.state = .serializeInFaultedDelaySlot ∧ w = .waitForSerializeInFaultedDelaySlot) :
      room p s i = true ∧ (comb p s i).allocTwo = false := by
    obtain hc | ⟨hr, hc⟩ := alone_turn (p := p) (i := i) hs
    · simp [hc, finish] at ha
    · exact ⟨hr, by simp [hc, finish]⟩
  obtain hs | hs | hs | hs | hs | hs | hs := s.regs.state.kinds
  · refine .inl ⟨hs, ?_⟩
    obtain ⟨c, hturn, hcomb⟩ := comb_active (p := p) (i := i) hs
    rw [hcomb] at ha ⊢
    have alloc_of (hal : (allocate p s i (tick s i)).alloc = true) :
        canAlloc p s i = true ∧ (∃ u us, s.dq = u :: us ∧ u.serializingOp = false) ∧
          (allocate p s i (tick s i)).allocTwo = canAllocTwo p s i := by
      obtain ⟨-, he⟩ | ⟨-, -, he⟩ | ⟨hq, he⟩ :=
        allocate_cases (p := p) (s := s) (i := i) (tick s i)
      · simp [he] at hal
      · simp [he] at hal
      · rw [he] at hal ⊢
        exact ⟨hal, hq, rfl⟩
    cases hturn with
    | detour => simp [finish] at ha
    | fault e es hrob hdone hfault harch => simp [finish, faultedHead, harch] at ha
    | restart e es hrob hdone hfault harch => simp [finish, faultedHead, harch] at ha
    | retire e es =>
      have hal : (allocate p s i (tick s i)).alloc = true := by simpa [finish] using ha
      obtain ⟨h1, h2, h3⟩ := alloc_of hal
      exact ⟨h1, h2, by simpa [finish] using h3⟩
    | wait => exact alloc_of ha
  · obtain ⟨c, hturn, hcomb⟩ := comb_drain (p := p) (i := i) hs
    rw [hcomb] at ha
    cases hturn <;> simp [finish] at ha
  · simp only [comb_rat hs, finish, rat] at ha
    split at ha <;> simp at ha
  · simp only [comb_archFault hs, finish, archFault] at ha
    split at ha
    · simp at ha
    · dsimp only at ha
      split at ha <;> simp at ha
  · exact .inr ⟨.inl hs, alone (.inl ⟨hs, rfl⟩)⟩
  · exact .inr ⟨.inr hs, alone (.inr ⟨hs, rfl⟩)⟩
  · rw [(comb_still hok h hs).alloc] at ha
    cases ha

/-- The states and the conditions in which entries leave at the head. -/
theorem leaving_cases (hok : RobOk s) (h : Fits s) (hl : leaving (comb p s i) ≠ 0) :
    s.regs.state = .active ∨ s.regs.state = .drain ∨ s.regs.state = .archFault := by
  have alone {w : FsmState}
      (hs : s.regs.state = .allocForSerialize ∧ w = .waitForSerializeAndRestart ∨
        s.regs.state = .serializeInFaultedDelaySlot ∧ w = .waitForSerializeInFaultedDelaySlot) :
      leaving (comb p s i) = 0 := by
    obtain hc | ⟨-, hc⟩ := alone_turn (p := p) (i := i) hs <;> simp [hc, finish, leaving]
  obtain hs | hs | hs | hs | hs | hs | hs := s.regs.state.kinds
  · exact .inl hs
  · exact .inr (.inl hs)
  · refine (hl ?_).elim
    simp only [comb_rat hs, finish, rat]
    split <;> rfl
  · exact .inr (.inr hs)
  · exact (hl (alone (.inl ⟨hs, rfl⟩))).elim
  · exact (hl (alone (.inr ⟨hs, rfl⟩))).elim
  · have hc := comb_still (p := p) (i := i) hok h hs
    simp [leaving, hc.retire, hc.bumpRobHead] at hl

/-- Only `RAT` clears the reorder buffer. -/
theorem clrRob_cases (hok : RobOk s) (h : Fits s) (hc : (comb p s i).clrRob = true) :
    s.regs.state = .rat := by
  have alone {w : FsmState}
      (hs : s.regs.state = .allocForSerialize ∧ w = .waitForSerializeAndRestart ∨
        s.regs.state = .serializeInFaultedDelaySlot ∧ w = .waitForSerializeInFaultedDelaySlot) :
      (comb p s i).clrRob = false := by
    obtain hc | ⟨-, hc⟩ := alone_turn (p := p) (i := i) hs <;> simp [hc, finish]
  obtain hs | hs | hs | hs | hs | hs | hs := s.regs.state.kinds
  · obtain ⟨c, hturn, hcomb⟩ := comb_active (p := p) (i := i) hs
    rw [hcomb] at hc
    have hal : (allocate p s i (tick s i)).clrRob = false := by
      obtain ⟨-, he⟩ | ⟨-, -, he⟩ | ⟨-, he⟩ :=
        allocate_cases (p := p) (s := s) (i := i) (tick s i) <;> simp [he]
    cases hturn with
    | detour => simp [finish] at hc
    | fault e es hrob hdone hfault harch => simp [finish, faultedHead, harch] at hc
    | restart e es hrob hdone hfault harch => simp [finish, faultedHead, harch] at hc
    | retire => simp [finish, hal] at hc
    | wait => simp [finish, hal] at hc
  · obtain ⟨c, hturn, hcomb⟩ := comb_drain (p := p) (i := i) hs
    rw [hcomb] at hc
    cases hturn <;> simp [finish] at hc
  · exact hs
  · simp only [comb_archFault hs, finish, archFault] at hc
    split at hc
    · simp at hc
    · dsimp only at hc
      split at hc <;> simp at hc
  · rw [alone (.inl ⟨hs, rfl⟩)] at hc
    cases hc
  · rw [alone (.inr ⟨hs, rfl⟩)] at hc
    cases hc
  · rw [(comb_still hok h hs).clrRob] at hc
    cases hc

/-! ## Serializing operations that are alone -/

/-- The operations of a kind are allocated alone: such an entry is the oldest, its state
waits for it, and in `ACTIVE` it is complete. -/
def Alone (X : Op → Bool) (s : State) : Prop :=
  ∀ k e, s.rob[k]? = some e → X e.uop.op = true → k = 0 ∧
    (s.regs.state = .waitForSerializeAndRestart ∨
      (s.regs.state = .active ∨ s.regs.state = .cacheFlush) ∧ e.done = true)

/-- While a serializing operation is at the head of `ACTIVE`, the cycles that do not retire
it only allocate. -/
theorem serial_head_active {e : Entry} {es : List Entry} (hok : RobOk s)
    (hs : s.regs.state = .active) (hrob : s.rob = e :: es)
    (hser : e.uop.op.serializes = true) :
    (e.done = true ∧ comb p s i = finish s (accumulate e es
        { allocate p s i (tick s i) with retire := true, retireTwo := canRetireTwo i e es })) ∨
      comb p s i = finish s (allocate p s i (tick s i)) := by
  have hq := (hok e (by simp [hrob])).quiet hser
  obtain ⟨c, hturn, hcomb⟩ := comb_active (p := p) (i := i) hs
  cases hturn with
  | detour b u us hrob' hdone hslot hfault =>
    obtain ⟨rfl, -⟩ := List.cons.inj (hrob.symm.trans hrob')
    simp [hq] at hfault
  | fault b bs hrob' hdone hfault =>
    obtain ⟨rfl, -⟩ := List.cons.inj (hrob.symm.trans hrob')
    simp [hq] at hfault
  | restart b bs hrob' hdone hfault =>
    obtain ⟨rfl, -⟩ := List.cons.inj (hrob.symm.trans hrob')
    simp [hq] at hfault
  | retire b bs hrob' hdone =>
    obtain ⟨rfl, rfl⟩ := List.cons.inj (hrob.symm.trans hrob')
    exact .inl ⟨hdone, hcomb⟩
  | wait => exact .inr hcomb

/-- With a non-empty reorder buffer, the allocation leaves the state alone. -/
theorem allocate_state (hrob : s.rob ≠ []) (c : Comb) :
    (allocate p s i c).n = c.n ∧ (allocate p s i c).retire = c.retire ∧
      (allocate p s i c).bumpRobHead = c.bumpRobHead ∧
      (allocate p s i c).fcsrWe = c.fcsrWe ∧ (allocate p s i c).fcsrFlags5 = c.fcsrFlags5 ∧
      (allocate p s i c).clrRob = c.clrRob := by
  obtain ⟨-, h⟩ | ⟨h, -⟩ | ⟨-, h⟩ := allocate_cases (p := p) (s := s) (i := i) c
  · rw [h]
    exact ⟨rfl, rfl, rfl, rfl, rfl, rfl⟩
  · exact (hrob h).elim
  · rw [h]
    exact ⟨rfl, rfl, rfl, rfl, rfl, rfl⟩

/-- The wait for a serializing operation ends when it is complete. -/
theorem wait_state {e : Entry} {es : List Entry} (hs : s.regs.state = .waitForSerializeAndRestart)
    (hrob : s.rob = e :: es) :
    (next p s i).regs.state = .waitForSerializeAndRestart ∨
      ((next p s i).regs.state = .active ∨ (next p s i).regs.state = .cacheFlush) ∧
        e.done = true := by
  have hturn := serial_turn (p := p) hrob (tick s i)
  have hcomb : comb p s i = finish s (waitForSerialize p s (tick s i)) := by simp [comb, arm, hs]
  revert hcomb
  generalize waitForSerialize p s (tick s i) = c at hturn
  intro hcomb
  cases hturn with
  | wait => exact .inl (by simp [next, hcomb, finish, hs])
  | flush hdone =>
    obtain ⟨n, hr, hn⟩ := requestFlush_frame (p := p) (s := s) e (tick s i)
    exact .inr ⟨.inr (by simp [next, hcomb, finish, hr, hn]), hdone⟩
  | restart => exact .inl (by simp [next, hcomb, finish, hs, restartAfter])
  | resume hdone => exact .inr ⟨.inl (by simp [next, hcomb, finish]), hdone⟩

/-- `CACHE_FLUSH` ends in `ACTIVE`. -/
theorem cacheFlush_state {e : Entry} {es : List Entry} (hs : s.regs.state = .cacheFlush)
    (hrob : s.rob = e :: es) :
    (next p s i).regs.state = .active ∨ (next p s i).regs.state = .cacheFlush := by
  have hturn := flush_turn hrob (tick s i)
  have hcomb : comb p s i = finish s (cacheFlush s (tick s i)) := by simp [comb, arm, hs]
  revert hcomb
  generalize cacheFlush s (tick s i) = c at hturn
  intro hcomb
  cases hturn with
  | wait => exact .inr (by simp [next, hcomb, finish, hs])
  | restart => exact .inr (by simp [next, hcomb, finish, hs, restartAfter])
  | resume hall hack n hn => exact .inl (by simp [next, hcomb, finish, hn])

/-- A serializing operation at the head of `ACTIVE` stays there until it retires. -/
theorem serial_head_state {e : Entry} {es : List Entry} (hok : RobOk s)
    (hs : s.regs.state = .active) (hrob : s.rob = e :: es) (hser : e.uop.op.serializes = true)
    (hl : leaving (comb p s i) = 0) : (next p s i).regs.state = .active := by
  have hne : s.rob ≠ [] := by simp [hrob]
  obtain ⟨-, hc⟩ | hc := serial_head_active (p := p) (i := i) hok hs hrob hser
  · simp only [hc, leaving, finish, accumulate_retire, Bool.true_or, if_true] at hl
    split at hl <;> cases hl
  · have hn := (allocate_state (p := p) (i := i) hne (tick s i)).1
    simp [next, hc, finish, hn, hs]

/-- What is allocated in `ACTIVE` is not serializing; the other states allocate from the
head of the decode queue. -/
theorem new_serial (hok : RobOk s) (hf : Fits s) {u : Uop} (ha : (comb p s i).alloc = true)
    (hu : s.dq[0]? = some u ∨ s.dq[1]? = some u ∧ (comb p s i).allocTwo = true)
    (hser : u.serializingOp = true) :
    (s.regs.state = .allocForSerialize ∨ s.regs.state = .serializeInFaultedDelaySlot) ∧
      (∃ us, s.dq = u :: us) ∧ (comb p s i).allocTwo = false := by
  obtain ⟨hst, -, ⟨v, vs, hdq, hv⟩, htwo⟩ | ⟨hst, hroom, htwo⟩ := alloc_cases hok hf ha
  · exfalso
    obtain hu | ⟨hu, h2⟩ := hu
    · simp only [hdq, List.getElem?_cons_zero, Option.some.injEq] at hu
      simp [← hu, hv] at hser
    · obtain ⟨a, b, bs, hdq', -, -, -, hb, -⟩ := canAllocTwo_spec (htwo.symm.trans h2)
      simp only [hdq', List.getElem?_cons_succ, List.getElem?_cons_zero, Option.some.injEq] at hu
      simp [← hu, hb] at hser
  · refine ⟨hst, ?_, htwo⟩
    obtain hu | ⟨-, h2⟩ := hu
    · cases hq : s.dq with
      | nil => simp [hq] at hu
      | cons a as =>
        simp only [hq, List.getElem?_cons_zero, Option.some.injEq] at hu
        exact ⟨as, by rw [hu]⟩
    · rw [htwo] at h2
      cases h2

theorem rob_head {s : State} {e : Entry} (h : s.rob[0]? = some e) : ∃ es, s.rob = e :: es := by
  cases hr : s.rob with
  | nil => simp [hr] at h
  | cons a as =>
    simp only [hr, List.getElem?_cons_zero, Option.some.injEq] at h
    exact ⟨as, by rw [h]⟩

theorem alone_next {X : Op → Bool} (hX : ∀ u : Uop, X u.op = true → u.serializingOp = true)
    (hok : RobOk s) (hf : Fits s) (h : Alone X s)
    (hslot : s.regs.state = .serializeInFaultedDelaySlot →
      ∀ u us, s.dq = u :: us → X u.op = false) : Alone X (next p s i) := by
  intro k e' he hx
  simp only [next, nextRob] at he
  split at he
  · cases he
  rw [List.getElem?_append] at he
  split at he
  next hk =>
    obtain ⟨e, hg, rfl⟩ := kept_getElem? he
    rw [Entry.next_uop] at hx
    obtain ⟨h0, hst⟩ := h _ e hg hx
    have hl : leaving (comb p s i) = 0 := by omega
    have hk0 : k = 0 := by omega
    subst hk0
    rw [hl] at hg
    refine ⟨rfl, ?_⟩
    have hser := e.uop.ok.serializing (hX e.uop hx)
    obtain ⟨es, hrob⟩ := rob_head hg
    obtain hst | ⟨hst | hst, hdone⟩ := hst
    · obtain hn | ⟨hn, hdone⟩ := wait_state (p := p) (i := i) hst hrob
      · exact .inl hn
      · rw [Entry.next_of_done hdone]
        exact .inr ⟨hn, hdone⟩
    · rw [Entry.next_of_done hdone]
      exact .inr ⟨.inl (serial_head_state hok hst hrob hser hl), hdone⟩
    · rw [Entry.next_of_done hdone]
      exact .inr ⟨cacheFlush_state hst hrob, hdone⟩
  next hk =>
    obtain ⟨u, d, t, rfl, ha, hu⟩ := mem_newEntries (List.mem_of_getElem? he)
    change X u.op = true at hx
    obtain ⟨hst | hst, ⟨us, hdq⟩, htwo⟩ := new_serial hok hf ha hu (hX u hx)
    · have hrob : s.rob = [] := by
        simp only [Fits, hst] at hf
        exact hf.1
      rw [newEntries_cons hdq ha htwo] at he
      have hk0 : k = 0 := by
        have := (List.getElem?_eq_some_iff.mp he).1
        simp only [List.length_drop, progress_length, hrob, List.length_nil,
          List.length_singleton] at this
        omega
      obtain hc | ⟨-, hc⟩ := alone_turn (p := p) (i := i) (.inl ⟨hst, rfl⟩)
      · simp [hc, finish] at ha
      · exact ⟨hk0, .inl (by simp [next, hc, finish])⟩
    · rw [hslot hst u us hdq] at hx
      cases hx

theorem alone_reset (X : Op → Bool) : Alone X reset := by
  intro k e he
  simp [reset] at he

/-! ## The transitions of the state -/

/-- The states that can follow a state. -/
def FsmState.succs : FsmState → List FsmState
  | .active => [.active, .serializeInFaultedDelaySlot, .archFault, .drain, .allocForSerialize]
  | .drain => [.drain, .rat, .archFault]
  | .exceptionDrain => [.exceptionDrain, .rat]
  | .rat => [.rat, .active]
  | .allocForSerialize => [.allocForSerialize, .waitForSerializeAndRestart]
  | .waitForSerializeAndRestart => [.waitForSerializeAndRestart, .cacheFlush, .active]
  | .cacheFlush => [.cacheFlush, .active]
  | .flushForHalt => [.flushForHalt, .halt]
  | .halt => [.halt, .haltWaitForRestart]
  | .haltWaitForRestart => [.haltWaitForRestart, .active]
  | .archFault => [.writeEpc]
  | .writeEpc => [.exceptionDrain]
  | .serializeInFaultedDelaySlot =>
    [.serializeInFaultedDelaySlot, .waitForSerializeInFaultedDelaySlot]
  | .waitForSerializeInFaultedDelaySlot => [.waitForSerializeInFaultedDelaySlot, .active]
  | .dead => [.dead]

theorem state_next (hok : RobOk s) (h : Fits s) :
    (next p s i).regs.state ∈ s.regs.state.succs := by
  have goes {l : List FsmState} (st : FsmState) (hn : (next p s i).regs.state = st)
      (hmem : st ∈ l) : (next p s i).regs.state ∈ l := hn ▸ hmem
  cases hs : s.regs.state with
  | active =>
    obtain ⟨c, hturn, hcomb⟩ := comb_active (p := p) (i := i) hs
    have hal (hn : (next p s i).regs.state = (allocate p s i (tick s i)).n.state) :
        (next p s i).regs.state ∈ FsmState.active.succs := by
      obtain ⟨-, h⟩ | ⟨-, -, h⟩ | ⟨-, h⟩ :=
        allocate_cases (p := p) (s := s) (i := i) (tick s i)
      · exact goes .active (by rw [hn, h, tick_state, hs]) (by decide)
      · exact goes .allocForSerialize (by rw [hn, h]) (by decide)
      · exact goes .active (by rw [hn, h, tick_state, hs]) (by decide)
    cases hturn with
    | detour =>
      exact goes .serializeInFaultedDelaySlot (by simp [next, hcomb, finish]) (by decide)
    | fault e es hrob hdone hfault harch =>
      exact goes .archFault (by simp [next, hcomb, finish, faultedHead, harch]) (by decide)
    | restart e es hrob hdone hfault harch =>
      exact goes .drain (by simp [next, hcomb, finish, faultedHead, harch]) (by decide)
    | retire e es => exact hal (by simp [next, hcomb, finish])
    | wait => exact hal (by simp [next, hcomb, finish])
  | drain =>
    obtain ⟨c, hturn, hcomb⟩ := comb_drain (p := p) (i := i) hs
    cases hturn with
    | rat => exact goes .rat (by simp [next, hcomb, finish]) (by decide)
    | fault => exact goes .archFault (by simp [next, hcomb, finish]) (by decide)
    | wait => exact goes .drain (by simp [next, hcomb, finish, hs]) (by decide)
    | nullify => exact goes .drain (by simp [next, hcomb, finish, hs]) (by decide)
    | retire => exact goes .drain (by simp [next, hcomb, finish, hs]) (by decide)
  | exceptionDrain =>
    simp only [next, comb, arm, hs, finish, exceptionDrain]
    split
    · simp [FsmState.succs]
    · simp [FsmState.succs, hs]
  | rat =>
    simp only [next, comb_rat hs, finish, rat]
    split
    · simp [FsmState.succs]
    · simp [FsmState.succs, hs]
  | allocForSerialize =>
    obtain hc | ⟨-, hc⟩ := alone_turn (p := p) (i := i) (.inl ⟨hs, rfl⟩)
    · exact goes .allocForSerialize (by simp [next, hc, finish, hs]) (by decide)
    · exact goes .waitForSerializeAndRestart (by simp [next, hc, finish]) (by decide)
  | waitForSerializeAndRestart =>
    simp only [Fits, hs] at h
    obtain ⟨e, hrob, -⟩ := h
    obtain hn | ⟨hn | hn, -⟩ := wait_state (p := p) (i := i) hs hrob
    · exact goes _ hn (by decide)
    · exact goes _ hn (by decide)
    · exact goes _ hn (by decide)
  | cacheFlush =>
    simp only [Fits, hs] at h
    obtain ⟨e, hrob, -⟩ := h
    obtain hn | hn := cacheFlush_state (p := p) (i := i) hs hrob
    · exact goes _ hn (by decide)
    · exact goes _ hn (by decide)
  | flushForHalt =>
    simp only [next, comb, arm, hs, finish, flushForHalt]
    split
    · simp [FsmState.succs]
    · simp [FsmState.succs, hs]
  | halt =>
    simp only [next, comb, arm, hs, finish, halt]
    split
    · simp [FsmState.succs]
    · simp [FsmState.succs, hs]
  | haltWaitForRestart =>
    simp only [next, comb, arm, hs, finish, haltWaitForRestart]
    split
    · simp [FsmState.succs]
    · simp [FsmState.succs, hs]
  | archFault =>
    refine goes .writeEpc ?_ (by decide)
    simp only [next, comb_archFault hs, finish, archFault]
    split <;> rfl
  | writeEpc => exact goes .exceptionDrain (by simp [next, comb, arm, hs, finish, writeEpc]) (by decide)
  | serializeInFaultedDelaySlot =>
    obtain hc | ⟨-, hc⟩ := alone_turn (p := p) (i := i) (.inr ⟨hs, rfl⟩)
    · exact goes .serializeInFaultedDelaySlot (by simp [next, hc, finish, hs]) (by decide)
    · exact goes .waitForSerializeInFaultedDelaySlot (by simp [next, hc, finish]) (by decide)
  | waitForSerializeInFaultedDelaySlot =>
    simp only [Fits, hs] at h
    obtain ⟨b, e, hrob, -, hser⟩ := h
    have hq := (hok e (by simp [hrob])).quiet (e.uop.ok.serializing hser)
    have hcomb : comb p s i = finish s (waitInSlot s (tick s i)) := by simp [comb, arm, hs]
    cases hdone : e.done with
    | true =>
      refine goes .active ?_ (by decide)
      simp [next, hcomb, finish, waitInSlot, hrob, hdone, hq]
    | false =>
      refine goes .waitForSerializeInFaultedDelaySlot ?_ (by decide)
      simp [next, hcomb, finish, waitInSlot, hrob, hdone, hs]
  | dead => exact goes .dead (by simp [next, comb, arm, hs, finish]) (by decide)

end Fsm

/-! ## Reachable states -/

/-- The invariants of every run. -/
structure Sane (s : State) : Prop where
  rob : RobOk s
  fits : Fits s

theorem sane_next {p : Params} {s : State} {i : Input} (h : Sane s) : Sane (next p s i) :=
  ⟨robOk_next h.rob, fits_next h.rob h.fits⟩

theorem sane_reset : Sane reset where
  rob e he := by simp [reset] at he
  fits := rfl

end Core

end R9999
