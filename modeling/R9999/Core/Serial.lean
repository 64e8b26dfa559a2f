import R9999.Core.Step

/-!
# Where the serializing operations are

A serializing operation is the oldest entry while the core waits for it, or the slot of a
mispredicted branch that it was allocated behind.  In the second case it is complete when
the branch retires, and either retires from `DRAIN` or is thrown away with the rest of the
reorder buffer.
-/

namespace R9999

namespace Core

variable {p : Params} {s : State} {i : Input}

/-- The places of a serializing operation. -/
inductive Seat (s : State) (k : Nat) (e : Entry) : Prop where
  /-- It is alone and the core waits for it. -/
  | alone (hk : k = 0) (hs : s.regs.state = .waitForSerializeAndRestart)
  /-- It is the oldest entry and complete. -/
  | head (hk : k = 0) (hs : s.regs.state = .active ∨ s.regs.state = .cacheFlush)
      (hdone : e.done = true)
  /-- It is the slot of the mispredicted branch at the head. -/
  | slot (b : Entry) (hk : k = 1) (hb : s.rob[0]? = some b) (hmis : b.Mispredicted)
      (hs : s.regs.state = .waitForSerializeInFaultedDelaySlot ∨
        s.regs.state = .active ∧ e.done = true)
  /-- The branch has retired. -/
  | drain (hk : k = 0) (hs : s.regs.state = .drain) (hdone : e.done = true)
  /-- It is about to be thrown away; it is not the faulting entry. -/
  | dead (hk : s.regs.state = .archFault → k ≠ 0) (hdone : e.done = true)
      (hs : s.regs.state = .archFault ∨ s.regs.state = .writeEpc ∨
        s.regs.state = .exceptionDrain ∨ s.regs.state = .rat)

/-- Every serializing operation has its place. -/
def Placed (s : State) : Prop :=
  ∀ k e, s.rob[k]? = some e → e.uop.serializingOp = true → Seat s k e

theorem placed_reset : Placed reset := by
  intro k e he
  simp [reset] at he

/-- A serializing operation gets its place when it is allocated. -/
theorem placed_new (hok : RobOk s) (hf : Fits s) {k : Nat} {e : Entry}
    (he : (newEntries s i (comb p s i))[k - ((progress s i).drop
      (leaving (comb p s i))).length]? = some e)
    (hk : ((progress s i).drop (leaving (comb p s i))).length ≤ k)
    (hser : e.uop.serializingOp = true) : Seat (next p s i) k e := by
  obtain ⟨u, d, t, rfl, ha, hu⟩ := mem_newEntries (List.mem_of_getElem? he)
  obtain ⟨hst | hst, ⟨us, hdq⟩, htwo⟩ := new_serial hok hf ha hu hser
  · obtain hc | ⟨-, hc⟩ := alone_turn (p := p) (i := i) (.inl ⟨hst, rfl⟩)
    · simp [hc, finish] at ha
    · refine .alone ?_ (by simp [next, hc, finish])
      simp only [Fits, hst] at hf
      rw [newEntries_cons hdq ha htwo] at he
      have hlt := (List.getElem?_eq_some_iff.mp he).1
      simp only [List.length_drop, progress_length, hf.1, List.length_nil,
        List.length_singleton] at hlt
      omega
  · obtain hc | ⟨-, hc⟩ := alone_turn (p := p) (i := i) (.inr ⟨hst, rfl⟩)
    · simp [hc, finish] at ha
    · simp only [Fits, hst] at hf
      obtain ⟨b, hrob, hmis, -⟩ := hf
      have hl : leaving (comb p s i) = 0 := by simp [hc, finish, leaving]
      rw [newEntries_cons hdq ha htwo] at he
      have hlt := (List.getElem?_eq_some_iff.mp he).1
      simp only [hl, List.length_drop, progress_length, hrob, List.length_singleton] at hlt hk
      refine .slot b (by omega) ?_ hmis (.inl (by simp [next, hc, finish]))
      have hclr : (comb p s i).clrRob = false := by simp [hc, finish]
      simp [next, nextRob, hclr, hl, progress, hrob, Entry.next_of_done hmis.done]

/-- Entries retire in two states. -/
theorem retire_state (hok : RobOk s) (hf : Fits s) (hr : (comb p s i).retire = true) :
    s.regs.state = .active ∨ s.regs.state = .drain := by
  have hl : leaving (comb p s i) ≠ 0 := by
    simp only [leaving, hr, Bool.true_or, if_true]
    split <;> simp
  obtain hs | hs | hs := leaving_cases hok hf hl
  · exact .inl hs
  · exact .inr hs
  · rw [comb_archFault hs] at hr
    simp only [finish, archFault] at hr
    split at hr
    · simp at hr
    · dsimp only at hr
      split at hr <;> simp at hr

/-- Two entries retire together only if the first restarts nothing. -/
theorem retireTwo_head (hs : s.regs.state = .active) (htwo : (comb p s i).retireTwo = true) :
    ∃ b bs, s.rob = b :: bs ∧ b.done = true ∧ b.faulted = false := by
  obtain ⟨c, hturn, hcomb⟩ := comb_active (p := p) (i := i) hs
  cases hturn with
  | detour => simp [hcomb, finish] at htwo
  | fault => simp [hcomb, finish] at htwo
  | restart => simp [hcomb, finish] at htwo
  | retire b bs hrob hdone hfault => exact ⟨b, bs, hrob, hdone, hfault⟩
  | wait =>
    obtain ⟨-, ha⟩ | ⟨-, -, ha⟩ | ⟨-, ha⟩ :=
      allocate_cases (p := p) (s := s) (i := i) (tick s i) <;> simp [hcomb, finish, ha] at htwo

/-- What `DRAIN` retires. -/
theorem drain_retire (hs : s.regs.state = .drain) (hr : (comb p s i).retire = true) :
    (comb p s i).retireTwo = false ∧ s.regs.dsDone = false ∧
      (s.regs.hasNullifyingDelaySlot = true → s.regs.takeBr = true) := by
  obtain ⟨c, hturn, hcomb⟩ := comb_drain (p := p) (i := i) hs
  cases hturn with
  | retire e es hrob hds hdone harch hbr => exact ⟨by simp [hcomb, finish], hds, hbr⟩
  | _ => simp [hcomb, finish] at hr

/-- A complete head that does not leave stays as it is. -/
theorem head_kept (hl : leaving (comb p s i) = 0) (hclr : (comb p s i).clrRob = false)
    {b : Entry} (hb : s.rob[0]? = some b) (hdone : b.done = true) :
    (next p s i).rob[0]? = some b := by
  have hlen : 0 < s.rob.length := (List.getElem?_eq_some_iff.mp hb).1
  simp only [next, nextRob, hclr, hl, if_neg Bool.false_ne_true, List.drop_zero]
  rw [List.getElem?_append_left (by simpa using hlen), progress_getElem?, hb]
  simp [Entry.next_of_done hdone]

/-- The mispredicted branch at the head is waited for, faults or retires. -/
theorem slot_state (hs : s.regs.state = .active) {b f : Entry} {bs : List Entry}
    (hrob : s.rob = b :: f :: bs) (hmis : b.Mispredicted) :
    leaving (comb p s i) = 0 ∧ (comb p s i).clrRob = false ∧
        ((next p s i).regs.state = .active ∨ (next p s i).regs.state = .archFault) ∨
      leaving (comb p s i) = 1 ∧ (next p s i).regs.state = .drain := by
  obtain ⟨c, hturn, hcomb⟩ := comb_active (p := p) (i := i) hs
  cases hturn with
  | detour b' u us hrob' => simp [hrob] at hrob'
  | fault b' bs' hrob' hd hfl harch =>
    refine .inl ⟨?_, ?_, .inr ?_⟩
    · simp [hcomb, finish, leaving, faultedHead, harch]
    · simp [hcomb, finish, faultedHead, harch]
    · simp [next, hcomb, finish, faultedHead, harch]
  | restart b' bs' hrob' hd hfl harch =>
    refine .inr ⟨by simp [hcomb, finish, leaving], ?_⟩
    simp [next, hcomb, finish, faultedHead, harch]
  | retire b' bs' hrob' hd hfl =>
    obtain ⟨rfl, -⟩ := List.cons.inj (hrob.symm.trans hrob')
    simp [hmis.faulted] at hfl
  | wait =>
    have hne : s.rob ≠ [] := by simp [hrob]
    obtain ⟨hn, hr, hbump, -, -, hclr⟩ := allocate_state (p := p) (i := i) hne (tick s i)
    refine .inl ⟨?_, by simp [hcomb, finish, hclr], .inl ?_⟩
    · simp [hcomb, finish, leaving, hr, hbump]
    · simp [next, hcomb, finish, hn, hs]

/-- The slot of a mispredicted branch that is still at the head. -/
theorem placed_slot (hok : RobOk s) (hf : Fits s) {k : Nat} {b e : Entry}
    (he : s.rob[leaving (comb p s i) + k]? = some e) (hser : e.uop.serializingOp = true)
    (hk : leaving (comb p s i) + k = 1) (hb : s.rob[0]? = some b) (hmis : b.Mispredicted)
    (hs : s.regs.state = .waitForSerializeInFaultedDelaySlot ∨
      s.regs.state = .active ∧ e.done = true) :
    Seat (next p s i) k (e.next s i (leaving (comb p s i) + k)) := by
  obtain hs | ⟨hs, hdone⟩ := hs
  · have hstill := comb_still (p := p) (i := i) hok hf (by simp [hs, FsmState.still])
    have hl : leaving (comb p s i) = 0 := by simp [leaving, hstill.retire, hstill.bumpRobHead]
    have hk1 : k = 1 := by omega
    have hfits := hf
    simp only [Fits, hs] at hfits
    obtain ⟨b', e', hrob, -, -⟩ := hfits
    have hee : e' = e := by simpa [hrob, hk] using he
    subst hee
    have hq := (hok e' (by simp [hrob])).quiet (e'.uop.ok.serializing hser)
    refine .slot b hk1 (head_kept hl hstill.clrRob hb hmis.done) hmis ?_
    have hcomb : comb p s i = finish s (waitInSlot s (tick s i)) := by simp [comb, arm, hs]
    cases hdone : e'.done with
    | true =>
      rw [Entry.next_of_done hdone]
      exact .inr ⟨by simp [next, hcomb, finish, waitInSlot, hrob, hdone, hq], hdone⟩
    | false => exact .inl (by simp [next, hcomb, finish, waitInSlot, hrob, hdone, hs])
  · rw [Entry.next_of_done hdone]
    obtain ⟨f, bs, hrob⟩ : ∃ f bs, s.rob = b :: f :: bs := by
      obtain ⟨bs, hrob⟩ := rob_head hb
      cases bs with
      | nil => simp [hrob, hk] at he
      | cons f bs => exact ⟨f, bs, hrob⟩
    obtain ⟨hl, hclr, hst⟩ | ⟨hl, hst⟩ := slot_state (p := p) (i := i) hs hrob hmis
    · obtain hst | hst := hst
      · exact .slot b (by omega) (head_kept hl hclr hb hmis.done) hmis (.inr ⟨hst, hdone⟩)
      · exact .dead (fun _ => by omega) hdone (.inl hst)
    · exact .drain (by omega) hst hdone

/-- The states in which the reorder buffer is thrown away follow each other. -/
theorem dead_state (hok : RobOk s) (hf : Fits s) (hclr : (comb p s i).clrRob = false)
    (hs : s.regs.state = .archFault ∨ s.regs.state = .writeEpc ∨
      s.regs.state = .exceptionDrain ∨ s.regs.state = .rat) :
    (next p s i).regs.state = .writeEpc ∨ (next p s i).regs.state = .exceptionDrain ∨
      (next p s i).regs.state = .rat := by
  have hn := state_next (p := p) (i := i) hok hf
  obtain hs | hs | hs | hs := hs
  · exact .inl (by simpa [hs, FsmState.succs] using hn)
  · exact .inr (.inl (by simpa [hs, FsmState.succs] using hn))
  · exact .inr (by simpa [hs, FsmState.succs] using hn)
  · rw [clrRob_rat hs] at hclr
    cases hclr

theorem placed_kept (hok : RobOk s) (hf : Fits s) (h : Placed s) {k : Nat} {e : Entry}
    (hclr : (comb p s i).clrRob = false)
    (he : s.rob[leaving (comb p s i) + k]? = some e) (hser : e.uop.serializingOp = true) :
    Seat (next p s i) k (e.next s i (leaving (comb p s i) + k)) := by
  have hsz := e.uop.ok.serializing hser
  have hq := (hok e (List.mem_of_getElem? he)).quiet hsz
  have hseat := h _ e he hser
  cases hseat with
  | alone hk hs =>
    rw [hk] at he
    obtain ⟨es, hrob⟩ := rob_head he
    obtain hn | ⟨hn, hdone⟩ := wait_state (p := p) (i := i) hs hrob
    · exact .alone (by omega) hn
    · rw [Entry.next_of_done hdone]
      exact .head (by omega) hn hdone
  | head hk hs hdone =>
    rw [Entry.next_of_done hdone]
    rw [hk] at he
    obtain ⟨es, hrob⟩ := rob_head he
    refine .head (by omega) ?_ hdone
    obtain hs | hs := hs
    · exact .inl (serial_head_state hok hs hrob hsz (by omega))
    · exact cacheFlush_state hs hrob
  | slot b hk hb hmis hs => exact placed_slot hok hf he hser hk hb hmis hs
  | drain hk hs hdone =>
    rw [Entry.next_of_done hdone]
    rw [hk] at he
    obtain ⟨es, hrob⟩ := rob_head he
    obtain ⟨c, hturn, hcomb⟩ := comb_drain (p := p) (i := i) hs
    cases hturn with
    | wait => exact .drain (by omega) (by simp [next, hcomb, finish, hs]) hdone
    | rat =>
      refine .dead ?_ hdone (.inr (.inr (.inr ?_)))
      · intro hst
        simp [next, hcomb, finish] at hst
      · simp [next, hcomb, finish]
    | nullify => exact .drain (by omega) (by simp [next, hcomb, finish, hs]) hdone
    | fault f fs hrob' hds hd harch =>
      obtain ⟨rfl, -⟩ := List.cons.inj (hrob.symm.trans hrob')
      simp [archFault_of_faulted hq] at harch
    | retire f fs =>
      simp [hcomb, finish, leaving] at hk
  | dead hk hdone hs =>
    rw [Entry.next_of_done hdone]
    obtain hst | hst | hst := dead_state hok hf hclr hs
    · exact .dead (by simp [hst]) hdone (.inr (.inl hst))
    · exact .dead (by simp [hst]) hdone (.inr (.inr (.inl hst)))
    · exact .dead (by simp [hst]) hdone (.inr (.inr (.inr hst)))

theorem placed_next (hok : RobOk s) (hf : Fits s) (h : Placed s) : Placed (next p s i) := by
  intro k e' he hser
  have he' := he
  simp only [next, nextRob] at he'
  split at he'
  · cases he'
  next hclr =>
    rw [List.getElem?_append] at he'
    split at he'
    next hk =>
      obtain ⟨e, hg, rfl⟩ := kept_getElem? he'
      rw [Entry.next_uop] at hser
      exact placed_kept hok hf h (by simpa using hclr) hg hser
    next hk => exact placed_new hok hf he' (by omega) hser

end Core

end R9999
