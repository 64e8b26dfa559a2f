import R9999.Core.Serial

/-!
# What enters and leaves the reorder buffer

Every cycle removes entries at the head and appends new ones at the tail, or clears the
reorder buffer.  The entries that leave have retired, except for the faulting entry that
`ARCH_FAULT` drops.  The histories that later modules keep beside the core only need these
cases.
-/

namespace R9999

namespace Core

variable {p : Params} {s : State} {i : Input}

/-- What a cycle does at the head. -/
inductive Exit (s : State) (c : Comb) : Prop where
  | none (hl : leaving c = 0) (hr : c.retire = false) (h2 : c.retireTwo = false)
  /-- The faulting entry is dropped. -/
  | fault (hs : s.regs.state = .archFault) (hl : leaving c = 1) (hr : c.retire = false)
      (h2 : c.retireTwo = false)
  | one (e : Entry) (es : List Entry) (hrob : s.rob = e :: es) (hdone : e.done = true)
      (harch : e.archFault = false)
      (hs : s.regs.state = .active ∨ s.regs.state = .drain ∧ s.regs.dsDone = false)
      (hl : leaving c = 1) (hr : c.retire = true) (h2 : c.retireTwo = false)
  | two (e f : Entry) (es : List Entry) (hrob : s.rob = e :: f :: es) (hdone : e.done = true)
      (hdone2 : f.done = true) (hfault : e.faulted = false) (hfault2 : f.faulted = false)
      (hplain : f.uop.op.isCp0Wr = false ∧ f.uop.hiloDstValid = false ∧
        f.uop.fcrDstValid = false)
      (hs : s.regs.state = .active) (hl : leaving c = 2) (hr : c.retire = true)
      (h2 : c.retireTwo = true)

theorem canRetireTwo_spec {e : Entry} {es : List Entry} (h : canRetireTwo i e es = true) :
    ∃ f fs, es = f :: fs ∧ f.done = true ∧ f.faulted = false ∧ f.uop.op.isCp0Wr = false ∧
      f.uop.hiloDstValid = false ∧ f.uop.fcrDstValid = false := by
  cases es with
  | nil => simp [canRetireTwo] at h
  | cons f fs =>
    simp only [canRetireTwo, Bool.and_eq_true, Bool.not_eq_true'] at h
    obtain ⟨⟨⟨⟨⟨⟨⟨⟨⟨⟨-, hff⟩, -⟩, hfd⟩, -⟩, -⟩, -⟩, hcp0⟩, hhi⟩, hfcr⟩, -⟩ := h
    exact ⟨f, fs, rfl, hfd, hff, hcp0, hhi, hfcr⟩

theorem exit_active (hs : s.regs.state = .active) : Exit s (comb p s i) := by
  obtain ⟨c, hturn, hcomb⟩ := comb_active (p := p) (i := i) hs
  have hal := allocate_cases (p := p) (s := s) (i := i) (tick s i)
  have hquiet : (allocate p s i (tick s i)).retire = false ∧
      (allocate p s i (tick s i)).retireTwo = false ∧
      (allocate p s i (tick s i)).bumpRobHead = false := by
    obtain ⟨-, h⟩ | ⟨-, -, h⟩ | ⟨-, h⟩ := hal <;> simp [h]
  cases hturn with
  | detour =>
    exact .none (by simp [hcomb, finish, leaving]) (by simp [hcomb, finish])
      (by simp [hcomb, finish])
  | fault e es hrob hdone hfault harch =>
    exact .none (by simp [hcomb, finish, leaving, faultedHead, harch])
      (by simp [hcomb, finish]) (by simp [hcomb, finish])
  | restart e es hrob hdone hfault harch =>
    exact .one e es hrob hdone harch (.inl hs) (by simp [hcomb, finish, leaving])
      (by simp [hcomb, finish]) (by simp [hcomb, finish])
  | retire e es hrob hdone hfault =>
    have harch := archFault_of_faulted hfault
    cases htwo : canRetireTwo i e es with
    | false =>
      exact .one e es hrob hdone harch (.inl hs) (by simp [hcomb, finish, leaving, htwo])
        (by simp [hcomb, finish]) (by simp [hcomb, finish, htwo])
    | true =>
      obtain ⟨f, fs, rfl, hfd, hff, hplain⟩ := canRetireTwo_spec htwo
      exact .two e f fs hrob hdone hfd hfault hff hplain hs
        (by simp [hcomb, finish, leaving, htwo]) (by simp [hcomb, finish])
        (by simp [hcomb, finish, htwo])
  | wait =>
    obtain ⟨hr, h2, hb⟩ := hquiet
    exact .none (by simp [hcomb, finish, leaving, hr, hb]) (by simp [hcomb, finish, hr])
      (by simp [hcomb, finish, h2])

theorem exit_drain (hs : s.regs.state = .drain) : Exit s (comb p s i) := by
  obtain ⟨c, hturn, hcomb⟩ := comb_drain (p := p) (i := i) hs
  cases hturn with
  | retire e es hrob hds hdone harch =>
    exact .one e es hrob hdone harch (.inr ⟨hs, hds⟩) (by simp [hcomb, finish, leaving])
      (by simp [hcomb, finish]) (by simp [hcomb, finish])
  | _ =>
    exact .none (by simp [hcomb, finish, leaving]) (by simp [hcomb, finish])
      (by simp [hcomb, finish])

theorem exit_cases (hok : RobOk s) (hf : Fits s) : Exit s (comb p s i) := by
  have alone {w : FsmState}
      (hs : s.regs.state = .allocForSerialize ∧ w = .waitForSerializeAndRestart ∨
        s.regs.state = .serializeInFaultedDelaySlot ∧ w = .waitForSerializeInFaultedDelaySlot) :
      Exit s (comb p s i) := by
    obtain hc | ⟨-, hc⟩ := alone_turn (p := p) (i := i) hs <;>
      exact .none (by simp [hc, finish, leaving]) (by simp [hc, finish]) (by simp [hc, finish])
  obtain hs | hs | hs | hs | hs | hs | hs := s.regs.state.kinds
  · exact exit_active hs
  · exact exit_drain hs
  · refine .none ?_ ?_ ?_ <;>
      · simp only [comb_rat hs, finish, rat, leaving]
        split <;> rfl
  · have hfits := hf
    simp only [Fits, hs] at hfits
    obtain ⟨e, es, hrob, -⟩ := hfits
    refine .fault hs ?_ ?_ ?_ <;>
      · simp only [comb_archFault hs, finish, archFault, hrob, leaving]
        split <;> rfl
  · exact alone (.inl ⟨hs, rfl⟩)
  · exact alone (.inr ⟨hs, rfl⟩)
  · have hc := comb_still (p := p) (i := i) hok hf hs
    exact .none (by simp [leaving, hc.retire, hc.bumpRobHead]) hc.retire hc.retireTwo

/-- What retires is what leaves, unless it faults. -/
theorem retiring_eq (hok : RobOk s) (hf : Fits s) (hs : s.regs.state ≠ .archFault) :
    retiring s (comb p s i) = s.rob.take (leaving (comb p s i)) := by
  have hexit := exit_cases (p := p) (i := i) hok hf
  cases hexit with
  | none hl hr => simp [retiring, hl, hr]
  | fault h => exact (hs h).elim
  | one e es hrob _ _ _ hl hr h2 => simp [retiring, hl, hr, h2]
  | two e f es hrob _ _ _ _ _ _ hl hr h2 => simp [retiring, hl, hr, h2]

/-- No more entries leave than there are. -/
theorem leaving_le (hok : RobOk s) (hf : Fits s) : leaving (comb p s i) ≤ s.rob.length := by
  have hexit := exit_cases (p := p) (i := i) hok hf
  cases hexit with
  | none hl => omega
  | fault hs hl =>
    simp only [Fits, hs] at hf
    obtain ⟨e, es, hrob, -⟩ := hf
    simp [hl, hrob]
  | one e es hrob _ _ _ hl => simp [hl, hrob]
  | two e f es hrob _ _ _ _ _ _ hl => simp [hl, hrob]

/-- What a cycle allocates. -/
inductive Alloc (p : Params) (s : State) (i : Input) (c : Comb) : Prop where
  | none (ha : c.alloc = false) (h2 : c.allocTwo = false) (hnew : newEntries s i c = [])
  | one (u : Uop) (us : List Uop) (hdq : s.dq = u :: us) (ha : c.alloc = true)
      (h2 : c.allocTwo = false)
      (hnew : newEntries s i c = [Entry.alloc u s.regs.inDelaySlot i.tag])
      (hroom : s.rob.length < p.robEntries) (henough : i.enough = true)
  | two (u v : Uop) (us : List Uop) (hdq : s.dq = u :: v :: us) (ha : c.alloc = true)
      (h2 : c.allocTwo = true)
      (hnew : newEntries s i c =
        [Entry.alloc u s.regs.inDelaySlot i.tag, Entry.alloc v u.hasDelaySlot i.tagTwo])
      (hroom : s.rob.length + 1 < p.robEntries) (henough : i.enough = true)
      (henough2 : i.enoughNext = true) (hser : u.serializingOp = false)
      (hser2 : v.serializingOp = false)

/-- Two operations are never allocated without the first. -/
theorem allocTwo_alloc (hok : RobOk s) (hf : Fits s) (h2 : (comb p s i).allocTwo = true) :
    (comb p s i).alloc = true := by
  have alone {w : FsmState}
      (hs : s.regs.state = .allocForSerialize ∧ w = .waitForSerializeAndRestart ∨
        s.regs.state = .serializeInFaultedDelaySlot ∧ w = .waitForSerializeInFaultedDelaySlot) :
      (comb p s i).allocTwo = false := by
    obtain hc | ⟨-, hc⟩ := alone_turn (p := p) (i := i) hs <;> simp [hc, finish]
  obtain hs | hs | hs | hs | hs | hs | hs := s.regs.state.kinds
  · obtain ⟨c, hturn, hcomb⟩ := comb_active (p := p) (i := i) hs
    rw [hcomb] at h2 ⊢
    have hal (h2 : (allocate p s i (tick s i)).allocTwo = true) :
        (allocate p s i (tick s i)).alloc = true := by
      obtain ⟨-, h⟩ | ⟨-, -, h⟩ | ⟨-, h⟩ :=
        allocate_cases (p := p) (s := s) (i := i) (tick s i)
      · simp [h] at h2
      · simp [h] at h2
      · simp only [h] at h2 ⊢
        obtain ⟨-, -, -, -, hc, -⟩ := canAllocTwo_spec h2
        exact hc
    cases hturn with
    | detour => simp [finish] at h2
    | fault e es hrob hdone hfault harch => simp [finish, faultedHead, harch] at h2
    | restart e es hrob hdone hfault harch => simp [finish, faultedHead, harch] at h2
    | retire e es =>
      have h := hal (by simpa [finish] using h2)
      simpa [finish] using h
    | wait => exact hal h2
  · obtain ⟨c, hturn, hcomb⟩ := comb_drain (p := p) (i := i) hs
    rw [hcomb] at h2
    cases hturn <;> simp [finish] at h2
  · simp only [comb_rat hs, finish, rat] at h2
    split at h2 <;> simp at h2
  · simp only [comb_archFault hs, finish, archFault] at h2
    split at h2
    · simp at h2
    · dsimp only at h2
      split at h2 <;> simp at h2
  · rw [alone (.inl ⟨hs, rfl⟩)] at h2
    cases h2
  · rw [alone (.inr ⟨hs, rfl⟩)] at h2
    cases h2
  · rw [(comb_still hok hf hs).allocTwo] at h2
    cases h2

theorem alloc_turn (hok : RobOk s) (hf : Fits s) : Alloc p s i (comb p s i) := by
  cases ha : (comb p s i).alloc with
  | false =>
    refine .none ha ?_ (newEntries_nil ha)
    cases h2 : (comb p s i).allocTwo with
    | false => rfl
    | true => exact ((allocTwo_alloc hok hf h2).symm.trans ha)
  | true =>
    obtain ⟨-, hc, ⟨u, us, hdq, hu⟩, htwo⟩ | ⟨-, hroom, htwo⟩ := alloc_cases hok hf ha
    · cases h2 : (comb p s i).allocTwo with
      | false =>
        obtain ⟨hroom, -, henough, -⟩ := canAlloc_spec hc
        exact .one u us hdq ha h2 (newEntries_cons hdq ha h2) hroom henough
      | true =>
        obtain ⟨a, b, bs, hdq', -, -, -, hb, -, hroom, henough2⟩ :=
          canAllocTwo_spec (htwo.symm.trans h2)
        obtain ⟨-, -, henough, -⟩ := canAlloc_spec hc
        obtain ⟨rfl, -⟩ := List.cons.inj (hdq.symm.trans hdq')
        exact .two u b bs hdq' ha h2 (newEntries_two hdq' ha h2) hroom henough henough2 hu hb
    · obtain ⟨hlen, hne, henough⟩ := room_spec hroom
      obtain ⟨u, us, hdq⟩ := List.exists_cons_of_ne_nil hne
      exact .one u us hdq ha htwo (newEntries_cons hdq ha htwo) hlen henough

/-- The reorder buffer never holds more entries than it has. -/
theorem rob_le (hok : RobOk s) (hf : Fits s) (h : s.rob.length ≤ p.robEntries) :
    (next p s i).rob.length ≤ p.robEntries := by
  change (nextRob s i (comb p s i)).length ≤ p.robEntries
  unfold nextRob
  split
  · exact Nat.zero_le _
  · simp only [List.length_append, List.length_drop, progress_length]
    have hturn := alloc_turn (p := p) (i := i) hok hf
    cases hturn with
    | none ha h2 hnew => simp only [hnew, List.length_nil]; omega
    | one u us hdq ha h2 hnew hroom => simp only [hnew, List.length_singleton]; omega
    | two u v us hdq ha h2 hnew hroom => simp only [hnew, List.length_cons, List.length_nil]; omega

/-- What a cycle keeps is unchanged but for its progress. -/
theorem rob_next (hclr : (comb p s i).clrRob = false) :
    (next p s i).rob =
      (progress s i).drop (leaving (comb p s i)) ++ newEntries s i (comb p s i) := by
  change nextRob s i (comb p s i) = _
  rw [nextRob, hclr]
  exact if_neg Bool.false_ne_true

theorem rob_clear (hclr : (comb p s i).clrRob = true) : (next p s i).rob = [] := by
  change nextRob s i (comb p s i) = _
  rw [nextRob, hclr]
  exact if_pos rfl

/-- An entry of the next reorder buffer was there before, or is new. -/
theorem next_getElem? (hok : RobOk s) (hf : Fits s) {k : Nat} {e' : Entry}
    (h : (next p s i).rob[k]? = some e') :
    (comb p s i).clrRob = false ∧
      ((∃ e, s.rob[leaving (comb p s i) + k]? = some e ∧
          e' = e.next s i (leaving (comb p s i) + k)) ∨
        s.rob.length ≤ leaving (comb p s i) + k ∧
          (newEntries s i (comb p s i))[leaving (comb p s i) + k - s.rob.length]? = some e') := by
  cases hclr : (comb p s i).clrRob with
  | true => simp [rob_clear hclr] at h
  | false =>
    rw [rob_next hclr, List.getElem?_append] at h
    refine ⟨rfl, ?_⟩
    split at h
    next => exact .inl (kept_getElem? h)
    next hk =>
      simp only [List.length_drop, progress_length] at hk h
      have hle := leaving_le (p := p) (i := i) hok hf
      have hpos : k - (s.rob.length - leaving (comb p s i)) =
          leaving (comb p s i) + k - s.rob.length := by omega
      rw [hpos] at h
      exact .inr ⟨by omega, h⟩

/-! ## When the slot is done with -/

/-- `ds_done` changes with the branch that restarts the fetch, with its slot, and with an
exception. -/
theorem dsDone_cases (hf : Fits s) :
    (next p s i).regs.dsDone = s.regs.dsDone ∨
      s.regs.state = .active ∧ (next p s i).regs.state = .drain ∨
      (s.regs.state = .drain ∨ s.regs.state = .writeEpc) ∧ (next p s i).regs.dsDone = true ∨
      s.regs.state = .rat := by
  have same (h : (comb p s i).n.dsDone = s.regs.dsDone) :
      (next p s i).regs.dsDone = s.regs.dsDone := h
  cases hs : s.regs.state with
  | active =>
    obtain ⟨c, hturn, hcomb⟩ := comb_active (p := p) (i := i) hs
    have hal : (allocate p s i (tick s i)).n.dsDone = s.regs.dsDone := by
      obtain ⟨-, h⟩ | ⟨-, -, h⟩ | ⟨-, h⟩ :=
        allocate_cases (p := p) (s := s) (i := i) (tick s i) <;> simp [h]
    cases hturn with
    | detour => exact .inl (same (by simp [hcomb, finish]))
    | fault e es hrob hdone hfault harch =>
      exact .inl (same (by simp [hcomb, finish, faultedHead, harch]))
    | restart e es hrob hdone hfault harch =>
      exact .inr (.inl ⟨rfl, by simp [next, hcomb, finish, faultedHead, harch]⟩)
    | retire => exact .inl (same (by simp [hcomb, finish, hal]))
    | wait => exact .inl (same (by simp [hcomb, finish, hal]))
  | drain =>
    obtain ⟨c, hturn, hcomb⟩ := comb_drain (p := p) (i := i) hs
    cases hturn with
    | wait => exact .inl (same (by simp [hcomb, finish]))
    | rat => exact .inl (same (by simp [hcomb, finish]))
    | _ => exact .inr (.inr (.inl ⟨.inl rfl, by simp [next, hcomb, finish]⟩))
  | rat => exact .inr (.inr (.inr rfl))
  | writeEpc =>
    exact .inr (.inr (.inl ⟨.inr rfl, by simp [next, comb, arm, hs, finish, writeEpc]⟩))
  | archFault =>
    refine .inl (same ?_)
    simp only [comb_archFault hs, finish, archFault]
    split
    · rfl
    · dsimp only
      split <;> rfl
  | allocForSerialize =>
    obtain hc | ⟨-, hc⟩ := alone_turn (p := p) (i := i) (.inl ⟨hs, rfl⟩) <;>
      exact .inl (same (by simp [hc, finish]))
  | serializeInFaultedDelaySlot =>
    obtain hc | ⟨-, hc⟩ := alone_turn (p := p) (i := i) (.inr ⟨hs, rfl⟩) <;>
      exact .inl (same (by simp [hc, finish]))
  | waitForSerializeAndRestart =>
    simp only [Fits, hs] at hf
    obtain ⟨e, hrob, -⟩ := hf
    have hturn := serial_turn (p := p) hrob (tick s i)
    have hcomb : comb p s i = finish s (waitForSerialize p s (tick s i)) := by
      simp [comb, arm, hs]
    revert hcomb
    generalize waitForSerialize p s (tick s i) = c at hturn
    intro hcomb
    refine .inl (same ?_)
    cases hturn with
    | wait => simp [hcomb, finish]
    | flush =>
      rw [hcomb]
      simp only [finish, requestFlush]
      split
      · rfl
      split
      · rfl
      split <;> rfl
    | restart => simp [hcomb, finish, restartAfter]
    | resume => simp [hcomb, finish, restartAfter]
  | cacheFlush =>
    simp only [Fits, hs] at hf
    obtain ⟨e, hrob, -⟩ := hf
    have hturn := flush_turn hrob (tick s i)
    have hcomb : comb p s i = finish s (cacheFlush s (tick s i)) := by simp [comb, arm, hs]
    revert hcomb
    generalize cacheFlush s (tick s i) = c at hturn
    intro hcomb
    refine .inl (same ?_)
    cases hturn with
    | wait => simp [hcomb, finish]
    | restart => simp [hcomb, finish, restartAfter]
    | resume hall hack n hn => simp [hcomb, finish, hn, restartAfter]
  | waitForSerializeInFaultedDelaySlot =>
    refine .inl (same ?_)
    simp only [comb, arm, hs, finish, waitInSlot]
    split
    · split
      · split <;> rfl
      · rfl
    · rfl
  | exceptionDrain =>
    refine .inl (same ?_)
    simp only [comb, arm, hs, finish, exceptionDrain]
    split <;> rfl
  | flushForHalt =>
    refine .inl (same ?_)
    simp only [comb, arm, hs, finish, flushForHalt]
    split <;> rfl
  | halt =>
    refine .inl (same ?_)
    simp only [comb, arm, hs, finish, halt]
    split <;> rfl
  | haltWaitForRestart =>
    refine .inl (same ?_)
    simp only [comb, arm, hs, finish, haltWaitForRestart]
    split <;> rfl
  | dead => exact .inl (same (by simp [comb, arm, hs, finish]))

/-- The states in which the slot may be done with. -/
def FsmState.doneWith : FsmState → Bool
  | .drain | .archFault | .writeEpc | .exceptionDrain | .rat => true
  | _ => false

theorem FsmState.doneWith_succs {a b : FsmState} (ha : a.doneWith = true) (hne : a ≠ .rat)
    (hb : b ∈ a.succs) : b.doneWith = true := by
  cases a with
  | drain =>
    simp only [succs, List.mem_cons, List.not_mem_nil, or_false] at hb
    obtain rfl | rfl | rfl := hb <;> rfl
  | exceptionDrain =>
    simp only [succs, List.mem_cons, List.not_mem_nil, or_false] at hb
    obtain rfl | rfl := hb <;> rfl
  | archFault =>
    obtain rfl := List.mem_singleton.mp hb
    rfl
  | writeEpc =>
    obtain rfl := List.mem_singleton.mp hb
    rfl
  | rat => exact (hne rfl).elim
  | _ => simp [doneWith] at ha

/-- The slot is done with only on the way to the restart. -/
def Undone (s : State) : Prop := s.regs.dsDone = true → s.regs.state.doneWith = true

theorem undone_next (hok : RobOk s) (hf : Fits s) (h : Undone s) : Undone (next p s i) := by
  intro hd
  have hn := state_next (p := p) (i := i) hok hf
  obtain hsame | ⟨-, hst⟩ | ⟨hst, -⟩ | hst := dsDone_cases (p := p) (i := i) hf
  · have hdone := h (hsame.symm.trans hd)
    by_cases hrat : s.regs.state = .rat
    · simp only [next, comb_rat hrat, finish, rat] at hd ⊢
      split at hd
      · simp at hd
      next hack =>
        rw [if_neg hack]
        simp [hrat, FsmState.doneWith]
    · exact FsmState.doneWith_succs hdone hrat hn
  · simp [hst, FsmState.doneWith]
  · obtain hst | hst := hst
    · exact FsmState.doneWith_succs (by simp [hst, FsmState.doneWith]) (by simp [hst]) hn
    · exact FsmState.doneWith_succs (by simp [hst, FsmState.doneWith]) (by simp [hst]) hn
  · simp only [next, comb_rat hst, finish, rat] at hd ⊢
    split at hd
    · simp at hd
    next hack =>
      rw [if_neg hack]
      simp [hst, FsmState.doneWith]

/-- Until the reorder buffer is cleared, the slot stays done with. -/
theorem dsDone_kept (hf : Fits s) (h : Undone s)
    (hclr : (comb p s i).clrRob = false) (hd : s.regs.dsDone = true) :
    (next p s i).regs.dsDone = true := by
  obtain hsame | ⟨hst, -⟩ | ⟨-, hn⟩ | hst := dsDone_cases (p := p) (i := i) hf
  · exact hsame.trans hd
  · have := h hd
    simp [hst, FsmState.doneWith] at this
  · exact hn
  · rw [clrRob_rat hst] at hclr
    cases hclr

end Core

end R9999
