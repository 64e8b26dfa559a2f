import R9999.Core.Window

/-!
# Address errors in the core

An operation whose fetch or whose access is an address error completes with a fault.  It
never retires: it leaves the reorder buffer in `ARCH_FAULT`, which records the error for the
handler, and what is younger than it is dropped by `RAT`.
-/

namespace R9999

namespace Core

namespace Entry

variable {s : State} {i : Input} {k : Nat} {e : Entry}

/-- An operation that is an address error: its fetch was, or the memory pipe said so of its
access. -/
def IsAddrError (e : Entry) : Prop :=
  e.uop.op = .fetchMisaligned ∨ e.uop.op = .fetchAddrError ∨
    e.uop.op = .other ∧ e.isBadAddr = true

/-- What the units report of the operations that can be address errors. -/
structure Reported (e : Entry) : Prop where
  /-- A fetch fault is complete, with its fault, when it is allocated. -/
  folded : e.uop.op.isFetchFault = true → e.complete = true ∧ e.faulted = true
  /-- The memory pipe reports a bad address of its own operations, as a fault. -/
  access : e.isBadAddr = true → e.uop.isMem = true ∧ e.faulted = true
  /-- Neither takes an exception of another unit. -/
  plain : e.uop.op.isFetchFault = true ∨ e.uop.isMem = true →
    e.isFpe = false ∧ (e.isIi = true → e.uop.op = .ii)

theorem alloc_reported (u : Uop) (d : Bool) (t : Tag) : (alloc u d t).Reported where
  folded h := by
    change u.op.isFetchFault = true at h
    change u.op.fold = true ∧ u.op.foldFaults = true
    revert h
    cases u.op <;> simp [Op.isFetchFault, Op.fold, Op.foldFaults]
  access := nofun
  plain _ := ⟨rfl, of_decide_eq_true⟩

theorem Reported.intDone (h : e.Reported) (r : IntResult) : (e.intDone r).Reported := by
  unfold Entry.intDone
  split
  next hc =>
    simp only [Bool.and_eq_true, Bool.not_eq_true'] at hc
    have nofetch : e.uop.op.isFetchFault = true → False := by
      intro hf
      rw [(h.folded hf).1] at hc
      exact absurd hc.2 (by decide)
    have nomem : e.uop.isMem = true → False := by
      intro hm
      rw [(e.uop.ok.pipeInt hc.1.1).1] at hm
      cases hm
    exact
      { folded := fun hf => (nofetch hf).elim
        access := fun hb => (nomem (h.access hb).1).elim
        plain := fun hfm => (hfm.elim nofetch nomem).elim }
  next => exact h

theorem Reported.fpDone (h : e.Reported) (r : FpResult) : (e.fpDone r).Reported := by
  unfold Entry.fpDone
  split
  next hc =>
    simp only [Bool.and_eq_true, Bool.not_eq_true'] at hc
    have nofetch : e.uop.op.isFetchFault = true → False := by
      intro hf
      rw [(h.folded hf).1] at hc
      exact absurd hc.2 (by decide)
    have nomem : e.uop.isMem = true → False := by
      intro hm
      rw [e.uop.ok.pipeMem hm] at hc
      exact absurd hc.1 (by decide)
    exact
      { folded := fun hf => (nofetch hf).elim
        access := fun hb => (nomem (h.access hb).1).elim
        plain := fun hfm => (hfm.elim nofetch nomem).elim }
  next => exact h

theorem Reported.memDone (h : e.Reported) (r : MemResult) : (e.memDone r).Reported := by
  unfold Entry.memDone
  split
  next hc =>
    simp only [Bool.and_eq_true, Bool.not_eq_true'] at hc
    have nofetch : e.uop.op.isFetchFault = true → False := by
      intro hf
      rw [(h.folded hf).1] at hc
      exact absurd hc.2 (by decide)
    refine ⟨fun hf => (nofetch hf).elim, fun hb => ⟨hc.1, ?_⟩, h.plain⟩
    change (e.memResult r).badAddr = true at hb
    change ((e.memResult r).badAddr || _ || _ || _ || _) = true
    rw [hb]
    rfl
  next => exact h

theorem Reported.next (h : e.Reported) : (e.next s i k).Reported :=
  next_induction h (fun _ r h => h.intDone r) (fun _ r h => h.fpDone r) (fun _ r h => h.memDone r)
    (fun _ h => ⟨h.folded, h.access, h.plain⟩) (fun _ _ h => ⟨h.folded, h.access, h.plain⟩)

/-- The memory pipe's report of a bad address. -/
theorem isAddrError_memDone (hop : e.uop.op = .other) (hm : e.uop.isMem = true)
    (hc : e.complete = false) {r : MemResult} (hb : r.badAddr = true) :
    (e.memDone r).IsAddrError ∧ (e.memDone r).addr = r.data := by
  have hr : e.memResult r = r := if_neg (by simp [hop])
  have he : (e.uop.isMem && !e.complete) = true := by simp [hm, hc]
  rw [Entry.memDone, if_pos he]
  refine ⟨.inr (.inr ⟨hop, ?_⟩), ?_⟩
  · show (e.memResult r).badAddr = true
    rw [hr, hb]
  · show (e.memResult r).data = r.data
    rw [hr]

theorem IsAddrError.faulted (h : e.IsAddrError) (hr : e.Reported) : e.faulted = true := by
  rcases h with h | h | ⟨-, h⟩
  · exact (hr.folded (by rw [h]; rfl)).2
  · exact (hr.folded (by rw [h]; rfl)).2
  · exact (hr.access h).2

/-- An address error is an architectural fault. -/
theorem IsAddrError.archFault (h : e.IsAddrError) (hr : e.Reported) : e.archFault = true := by
  rw [Entry.archFault, h.faulted hr, Bool.true_and]
  rcases h with h | h | ⟨-, h⟩
  · simp [h]
  · simp [h]
  · simp [h]

/-- Cause.ExcCode of an address error: a store's is its own. -/
def addrErrorCode (e : Entry) : BitVec 5 :=
  if e.uop.op.isFetchFault then 4 else if e.uop.isStore then 5 else 4

/-- What `ARCH_FAULT` finds out about an address error. -/
theorem IsAddrError.excInfo (h : e.IsAddrError) (hr : e.Reported) :
    (excInfo s i e).cause = e.addrErrorCode ∧ (excInfo s i e).hasBadvaddr = true ∧
      (excInfo s i e).saveToTlbRegs = false := by
  have hplain : e.isFpe = false ∧ (e.isIi = true → e.uop.op = .ii) := by
    refine hr.plain ?_
    rcases h with h | h | ⟨-, h⟩
    · exact .inl (by rw [h]; rfl)
    · exact .inl (by rw [h]; rfl)
    · exact .inr (hr.access h).1
  have hii : e.isIi = false := by
    by_contra hii
    have hop := hplain.2 (by simpa using hii)
    rcases h with h | h | ⟨h, -⟩ <;> exact absurd (hop.symm.trans h) (by decide)
  rw [Core.excInfo, addrErrorCode]
  rcases h with h | h | ⟨hop, hb⟩
  · simp [h, hii, hplain.1, Op.isFetchFault]
  · simp [h, hii, hplain.1, Op.isFetchFault]
  · simp [hop, hb, hii, hplain.1, Op.isFetchFault]

end Entry

/-! ## Runs -/

section Runs

variable {p : Params} {s : State} {i : Input} {k : Nat} {e : Entry}

/-- What holds of every state of a run. -/
structure Told (s : State) : Prop extends Sane s where
  reported : ∀ e ∈ s.rob, e.Reported

theorem told_next (h : Told s) : Told (next p s i) := by
  refine ⟨sane_next h.toSane, ?_⟩
  intro e' he
  simp only [next, nextRob] at he
  split at he
  · cases he
  rw [List.mem_append] at he
  obtain he | he := he
  · obtain ⟨k, hk⟩ := List.mem_iff_getElem?.mp he
    obtain ⟨e, hg, rfl⟩ := kept_getElem? hk
    exact (h.reported e (List.mem_of_getElem? hg)).next
  · obtain ⟨u, d, t, rfl, -, -⟩ := mem_newEntries he
    exact Entry.alloc_reported u d t

theorem told_reset : Told reset := ⟨sane_reset, fun e he => by simp [reset] at he⟩

theorem told_run (p : Params) (is : List Input) : Told (Hw.run (next p) reset is) :=
  Hw.run_invariant (fun _ _ h => told_next h) told_reset is

/-- What the handler of an exception is told. -/
structure Raised (n : Regs) (cause : BitVec 5) (badvaddr epc : BitVec 64) : Prop where
  state : n.state = .writeEpc
  cause : n.cause = cause
  hasBadvaddr : n.hasBadvaddr = true
  badvaddr : n.badvaddr = badvaddr
  epc : n.epc = epc
  saveToTlbRegs : n.saveToTlbRegs = false

/-- `ARCH_FAULT` takes the head out and records its error. -/
theorem raised_of_head (h : Told s) (hs : s.regs.state = .archFault) (he : s.rob[0]? = some e)
    (ha : e.IsAddrError) :
    Raised (next p s i).regs e.addrErrorCode
      (if e.uop.op.isFetchFault then e.uop.pc else e.addr)
      (if e.inDelaySlot then e.uop.pc - 4 else e.uop.pc) := by
  obtain ⟨es, hrob⟩ := rob_head he
  obtain ⟨hcause, hbad, hsave⟩ := ha.excInfo (s := s) (i := i) (h.reported e (by simp [hrob]))
  have hcomb := comb_archFault (p := p) (i := i) hs
  simp only [archFault, hrob] at hcomb
  constructor
  all_goals simp [next, hcomb, finish, hcause, hbad, hsave]

/-- **An address error never retires.**  It leaves the reorder buffer alone, in `ARCH_FAULT`. -/
theorem addrError_leaves (h : Told s) (he : s.rob[k]? = some e) (ha : e.IsAddrError)
    (hk : k < leaving (comb p s i)) :
    s.regs.state = .archFault ∧ k = 0 ∧ retiring s (comb p s i) = [] ∧
      Raised (next p s i).regs e.addrErrorCode
        (if e.uop.op.isFetchFault then e.uop.pc else e.addr)
        (if e.inDelaySlot then e.uop.pc - 4 else e.uop.pc) := by
  have hr := h.reported e (List.mem_of_getElem? he)
  have hexit := exit_cases (p := p) (i := i) h.rob h.fits
  cases hexit with
  | none hl => exact absurd hk (by omega)
  | fault hs hl hret =>
    have h0 : k = 0 := by omega
    rw [h0] at he
    exact ⟨hs, h0, if_neg (by simp [hret]), raised_of_head h hs he ha⟩
  | one b es hrob _ harch _ hl =>
    have h0 : k = 0 := by omega
    rw [h0, hrob] at he
    rw [← Option.some.inj he] at ha hr
    rw [ha.archFault hr] at harch
    cases harch
  | two b f es hrob _ _ hfault hfault2 _ _ hl =>
    have h01 : k = 0 ∨ k = 1 := by omega
    rcases h01 with h0 | h1
    · rw [h0, hrob] at he
      rw [← Option.some.inj he] at ha hr
      rw [ha.faulted hr] at hfault
      cases hfault
    · rw [h1, hrob] at he
      rw [← Option.some.inj he] at ha hr
      rw [ha.faulted hr] at hfault2
      cases hfault2

/-- An address error has no delay slot. -/
theorem addrError_noSlot (h : e.Reported) (ha : e.IsAddrError) : e.uop.hasDelaySlot = false := by
  by_contra hslot
  obtain ⟨hint, hjump⟩ := e.uop.ok.branch (by simpa using hslot)
  rcases ha with ha | ha | ⟨-, hb⟩
  · rw [ha] at hjump
    cases hjump
  · rw [ha] at hjump
    cases hjump
  · have hm := (h.access hb).1
    rw [(e.uop.ok.pipeInt hint).1] at hm
    cases hm

/-- An address error that is the oldest is taken. -/
theorem addrError_taken (h : Told s) (hs : s.regs.state = .active) (hi : i.stepOk = true)
    (he : s.rob[0]? = some e) (hd : e.done = true) (ha : e.IsAddrError) :
    (next p s i).regs.state = .archFault := by
  obtain ⟨es, hrob⟩ := rob_head he
  have hr := h.reported e (by simp [hrob])
  have hslot := addrError_noSlot hr ha
  have hfault := ha.faulted hr
  have hnull : e.uop.hasNullifyingDelaySlot = false := by
    by_contra hnull
    rw [e.uop.ok.nullifying (by simpa using hnull)] at hslot
    cases hslot
  have head {b : Entry} {bs : List Entry} (hb : s.rob = b :: bs) : b = e := by
    rw [hrob] at hb
    exact (List.cons.inj hb).1.symm
  obtain ⟨c, hturn, hcomb⟩ := comb_active (p := p) (i := i) hs
  cases hturn with
  | detour b u us hb _ hbslot =>
    rw [head hb, hslot] at hbslot
    cases hbslot
  | fault b bs hb _ _ harch => simp [next, hcomb, finish, faultedHead, harch]
  | restart b bs hb _ _ harch =>
    rw [head hb, ha.archFault hr] at harch
    cases harch
  | retire b bs hb _ hbf =>
    rw [head hb, hfault] at hbf
    cases hbf
  | wait hno => simp [canRetireRobHead, hrob, hd, hi, hfault, hnull, hslot] at hno

/-- The states from `ARCH_FAULT` to the restart. -/
def FsmState.squashes : FsmState → Bool
  | .archFault | .writeEpc | .exceptionDrain => true
  | _ => false

/-- **What is younger than a fault is dropped**: nothing retires from `ARCH_FAULT` on until
`RAT` has cleared the reorder buffer. -/
theorem squashed_next (h : Sane s) (hs : s.regs.state.squashes = true) :
    retiring s (comb p s i) = [] ∧ newEntries s i (comb p s i) = [] ∧
      ((next p s i).regs.state.squashes = true ∨ (next p s i).regs.state = .rat) := by
  have other {t : FsmState} (ht : t.squashes = false) : s.regs.state ≠ t := by
    intro heq
    rw [heq, ht] at hs
    cases hs
  refine ⟨?_, ?_, ?_⟩
  · have hexit := exit_cases (p := p) (i := i) h.rob h.fits
    cases hexit with
    | none _ hr => exact if_neg (by simp [hr])
    | fault _ _ hr => exact if_neg (by simp [hr])
    | one _ _ _ _ _ hst =>
      rcases hst with hst | ⟨hst, -⟩
      · exact absurd hst (other rfl)
      · exact absurd hst (other rfl)
    | two _ _ _ _ _ _ _ _ _ hst => exact absurd hst (other rfl)
  · refine newEntries_nil ?_
    by_contra ha
    obtain ⟨hst, -⟩ | ⟨hst | hst, -⟩ := alloc_cases h.rob h.fits (by simpa using ha)
    · exact other rfl hst
    · exact other rfl hst
    · exact other rfl hst
  · have hsucc := state_next (p := p) (i := i) h.rob h.fits
    revert hs hsucc
    cases s.regs.state <;> intro hs hsucc <;> cases hs
    all_goals
      simp only [FsmState.succs, List.mem_cons, List.not_mem_nil, or_false] at hsucc
    · exact .inl (by rw [hsucc]; rfl)
    · exact .inl (by rw [hsucc]; rfl)
    · rcases hsucc with hsucc | hsucc
      · exact .inl (by rw [hsucc]; rfl)
      · exact .inr hsucc

end Runs

end Core

end R9999
