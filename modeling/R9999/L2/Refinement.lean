import R9999.L2.Memory

/-!
# The L2 refines memory

The L2 over DRAM, driven by a requester that presents L1 requests and snoops in any order
and by a memory that answers whenever it likes, with every probe acknowledged clean.  The
history of accepted operations determines an abstract memory (`specMem`); the main result
`l2_refines_memory` says that from reset, whatever the RAMs held before it, every load is
answered with the abstract value of its line, and that in `IDLE` the abstract memory is
what the array and DRAM hold.
-/

namespace R9999

/-- The inputs of one cycle.  The requests are ones an L1 cache makes. -/
structure L2Stim where
  l1iFlushReq : Bool
  l1dFlushReq : Bool
  l1iFlushComplete : Bool
  l1dFlushComplete : Bool
  reqValid : Bool
  req : L1Req
  nocache : Bool
  memReqAck : Bool
  memRspValid : Bool
  memRspBad : Bool
  snoopReqValid : Bool
  snoopReqAddr : LineAddr
  snoopReqWbinv : Bool
  probeAck : Bool
  probeData : Line
  reqOk : reqValid = true → ReqOk req

/-- The L2 with DRAM behind it, and the history of the operations it accepted. -/
structure L2Sys where
  l2 : L2
  dram : Mem
  log : List Access

namespace L2Sys

/-- The pins of the L2: the memory's reply carries DRAM's contents at the requested
address, and probes are never dirty. -/
def pins (s : L2Sys) (i : L2Stim) : L2.Input where
  l1iFlushReq := i.l1iFlushReq
  l1dFlushReq := i.l1dFlushReq
  l1iFlushComplete := i.l1iFlushComplete
  l1dFlushComplete := i.l1dFlushComplete
  reqValid := i.reqValid
  req := i.req
  nocache := i.nocache
  memReqAck := i.memReqAck
  memRspValid := i.memRspValid
  memRspBad := i.memRspBad
  memRspLoadData := s.dram s.l2.regs.addr
  snoopReqValid := i.snoopReqValid
  snoopReqAddr := i.snoopReqAddr
  snoopReqWbinv := i.snoopReqWbinv
  probeAck := i.probeAck
  probeDirty := false
  probeData := i.probeData

/-- The operation acknowledged at this clock edge. -/
def accepted (g : Geometry) (s : L2Sys) (i : L2Stim) : List Access :=
  let r := (s.l2.next g (s.pins i)).regs
  if r.snoopAck then [.ofSnoop (s.pins i) s.dram]
  else if r.reqAck then [.ofReq (s.pins i) s.dram]
  else []

/-- One clock edge. -/
def next (g : Geometry) (s : L2Sys) (i : L2Stim) : L2Sys where
  l2 := s.l2.next g (s.pins i)
  dram := L2View.dramNext s.l2.regs (s.pins i) s.dram
  log := s.log ++ accepted g s i

/-- A run from a state. -/
def run (g : Geometry) (s : L2Sys) (is : List L2Stim) : L2Sys := is.foldl (next g) s

end L2Sys

/-- The abstract memory: the accepted operations applied in order to the initial
contents. -/
def specMem (d : Mem) (log : List Access) : Mem := log.foldl (fun M a => a.apply M) d

theorem specMem_append (d : Mem) (log log' : List Access) :
    specMem d (log ++ log') = specMem (specMem d log) log' := by
  simp [specMem]

namespace L2

/-- The line is valid in the L2. -/
def Has (g : Geometry) (s : L2) (x : LineAddr) : Prop :=
  (s.entry (g.l2Idx x)).valid = true ∧ (s.entry (g.l2Idx x)).tag = g.l2Tag x

instance (g : Geometry) (s : L2) (x : LineAddr) : Decidable (s.Has g x) :=
  inferInstanceAs (Decidable (_ ∧ _))

end L2

/-- In `IDLE` the abstract memory is what the array and DRAM hold. -/
theorem L2View.MemInv.idle {g : Geometry} {s : L2} {M d : Mem} (h : L2View.MemInv g M d s.view)
    (hs : s.regs.state = .idle) (x : LineAddr) :
    (M x = if s.Has g x then (s.entry (g.l2Idx x)).d0 else d x) ∧
    (s.Has g x → (s.entry (g.l2Idx x)).dirty = false → (s.entry (g.l2Idx x)).d0 = d x) := by
  have hne : s.view.regs.state ≠ .init := by
    intro h'
    exact absurd (hs.symm.trans h') (by simp)
  obtain ⟨hM, hC⟩ := (L2View.memInv_iff hne).mp h
  have harr : s.view.arr = s.entry := L2.view_arr (by simp [hs])
  have hslots : s.view.slots = L2Entry.slot ∘ s.entry := by
    rw [← harr]
    simp [L2View.slots, L2.view, hs]
  have hdram : L2View.dramView s.view.regs d = d := by
    simp [L2View.dramView, L2.view, hs]
  rw [hslots, hdram] at hC
  refine ⟨?_, fun hx hd => hC x hx hd⟩
  have hM' : M = L2View.base g s.view d := by
    rw [hM]
    simp [L2View.inService, L2.view, hs]
  rw [hM', L2View.base, hslots, hdram]
  rfl

namespace L2Sys

open L2View

variable {g : Geometry} {s : L2Sys} {i : L2Stim} {d : Mem}

/-- The states in which a request or a snoop is in service. -/
def busy : L2.State → Bool
  | .waitForRam | .checkValidAndTag | .dirtyStore | .storeTurnaround | .cleanReload
  | .waitCleanReload | .uncacheStore | .uncacheLoad | .uncacheWbDrain
  | .uncacheWbTurnaround => true
  | _ => false

/-- The load in service, or just answered, is the last operation of the history. -/
def Serving (r : L2.Regs) (log : List Access) : Prop :=
  r.opcode = .lw → r.rspValid = true ∨ busy r.state = true →
    log.getLast? = some (.load r.saveaddr)

/-- What a clock edge acknowledges is what the view accepts. -/
theorem accepted_apply {v v' : L2View} {j : L2.Input} (h : Step g v j v')
    (hp : j.probeDirty = false) {dram M : Mem} :
    (access g v j dram).apply M =
      specMem M (if v'.regs.snoopAck then [.ofSnoop j dram]
        else if v'.regs.reqAck then [.ofReq j dram] else []) := by
  cases h
  case idle hs hf hn hv => simp [access, hs, hf, hn, hv, specMem, Access.apply]
  case idleFlushSkip hs hf hk | idleFlush hs hf hk =>
    simp [access, hs, hf, specMem, Access.apply]
  case idleSnoop hs hf hn => simp [access, hs, hf, hn, specMem]
  case idleReq hs hf hn hv hc | idleUncached hs hf hn hv hc =>
    simp [access, hs, hf, hn, hv, specMem]
  case probeAcked hs hp' hr ha => simp [access, hs, hp, specMem, Access.apply]
  case probeWait hs hp' ha =>
    rw [access_apply_check hs (.inr ha)]
    simp [specMem]
  case uncachedWriteBack hs hu _ _ | uncachedHit hs hu _ _ | uncachedMiss hs hu _ =>
    rw [access_apply_check hs (.inl (needsProbe_of_uncache hu))]
    simp [specMem]
  case memWait hs hr =>
    have hne : ∀ t, memWaiting t = false → v.regs.state ≠ t := by
      intro t ht he
      rw [he, ht] at hs
      exact absurd hs (by simp)
    rw [access_apply_other (hne _ rfl) (hne _ rfl)]
    simp [specMem]
  case init hs _ | initLast hs _ | waitForRam hs | dirtyStoreDone hs _ | storeTurnaround hs
      | cleanReloadDone hs _ | waitCleanReload hs | waitStoreIdle hs | flushWait hs
      | flushTriageWb hs _ | flushTriageNext hs _ _ | flushTriageLast hs _ _
      | flushStoreNext hs _ _ | flushStoreLast hs _ _ | uncacheStoreDone hs _
      | uncacheLoadDone hs _ | uncacheWbDrainDone hs _ | turnaroundInvl hs _
      | turnaroundSnoop hs _ | turnaroundIssue hs _ _ =>
    rw [access_apply_other (by simp [hs]) (by simp [hs])]
    simp [specMem]
  case dropWriteBack hs _ hp' _ _ _ | invlDone hs _ hp' _ _ | pgdrop hs _ hp' _
      | snoopDone hs _ hp' _ _ | wb hs _ hp' _ | hitLw hs _ hp' _ _ | hitSw hs _ hp' _ _
      | hitOther hs _ hp' _ _ _ _ | evict hs _ hp' _ _ _ | reload hs _ hp' _ _ _ =>
    rw [access_apply_check hs (.inl hp')]
    simp [specMem]

theorem serving_step {v v' : L2View} {j : L2.Input} (h : Step g v j v') {dram : Mem}
    {log : List Access} (hs : Serving v.regs log) :
    Serving v'.regs (log ++ (if v'.regs.snoopAck then [.ofSnoop j dram]
        else if v'.regs.reqAck then [.ofReq j dram] else [])) := by
  intro ho hb
  cases h
  case idleReq | idleUncached =>
    simp only at ho
    simp [Access.ofReq, ho]
  case memWait hs' _ =>
    have := hs ho (.inr (by cases h : v.regs.state <;> simp_all [memWaiting, busy]))
    simpa using this
  all_goals simp_all [Serving, busy]

/-- The invariant of the runs from reset. -/
structure Inv (g : Geometry) (d : Mem) (s : L2Sys) : Prop where
  settled : s.l2.Settled
  ctl : Ctl g s.l2.view
  mem : MemInv g (specMem d s.log) s.dram s.l2.view
  serving : Serving s.l2.regs s.log
  answer : s.l2.regs.rspValid = true → s.l2.regs.opcode = .lw →
    s.l2.regs.rspData = specMem d s.log s.l2.regs.saveaddr

theorem Inv.next (h : Inv g d s) (i : L2Stim) : Inv g d (s.next g i) := by
  have hv := h.settled.view_next (g := g) (i := s.pins i)
  have hstep := L2View.step_next g s.l2.view (s.pins i)
  rw [← hv] at hstep
  have hreply : memWaiting s.l2.view.regs.state = true → (s.pins i).memRspValid = true →
      s.l2.view.regs.memOpcode = .lw →
        (s.pins i).memRspLoadData = s.dram s.l2.view.regs.addr := fun _ _ _ => rfl
  have hacc : specMem d (s.next g i).log =
      (access g s.l2.view (s.pins i) s.dram).apply (specMem d s.log) := by
    rw [accepted_apply hstep rfl]
    exact specMem_append _ _ _
  refine ⟨L2.settled_next h.settled, ctl_step hstep h.ctl i.reqOk, ?_, ?_, ?_⟩
  · rw [hacc]
    exact memInv_step hstep h.ctl h.mem i.reqOk hreply
  · exact serving_step hstep h.serving
  · intro hr ho
    rw [hacc]
    exact rspData_step hstep h.ctl h.mem hreply hr ho

/-- The state at the release of reset: the RAMs hold anything. -/
def reset (dataRam0 : Hw.RegRam Line) (tagRam : Hw.RegRam Nat)
    (validRam dirtyRam : Hw.RegRam Bool) (presRam : Hw.RegRam Pres) (dram : Mem) : L2Sys where
  l2 := ⟨L2.resetRegs, dataRam0, tagRam, validRam, dirtyRam, presRam⟩
  dram := dram
  log := []

theorem inv_reset (dataRam0 : Hw.RegRam Line) (tagRam : Hw.RegRam Nat)
    (validRam dirtyRam : Hw.RegRam Bool) (presRam : Hw.RegRam Pres) (dram : Mem) :
    Inv g dram (reset dataRam0 tagRam validRam dirtyRam presRam dram) where
  settled := by constructor <;> intro h <;> simp [reset, L2.resetRegs] at h
  ctl := ⟨g.l2Lines_pos, rfl⟩
  mem := by
    refine ⟨rfl, fun j h0 hle => ?_⟩
    exact absurd (Nat.lt_of_lt_of_le h0 hle) (Nat.lt_irrefl 0)
  serving := by
    intro ho
    simp [reset, L2.resetRegs] at ho
  answer := by
    intro hr
    simp [reset, L2.resetRegs] at hr

theorem Inv.run (h : Inv g d s) (is : List L2Stim) : Inv g d (s.run g is) := by
  induction is generalizing s with
  | nil => exact h
  | cons i is ih => exact ih (h.next i)

theorem Inv.idle (h : Inv g d s) (hs : s.l2.regs.state = .idle) (x : LineAddr) :
    (specMem d s.log x =
      if s.l2.Has g x then (s.l2.entry (g.l2Idx x)).d0 else s.dram x) ∧
    (s.l2.Has g x → (s.l2.entry (g.l2Idx x)).dirty = false →
      (s.l2.entry (g.l2Idx x)).d0 = s.dram x) := L2View.MemInv.idle h.mem hs x

/-- Only a page drop and a discarding snoop make a line fall back to DRAM. -/
theorem accepted_drop {x : LineAddr} {data : Line} (h : Access.drop x data ∈ s.accepted g i) :
    data = s.dram x ∧
      (i.req.opcode = .pgdrop ∧ x = i.req.addr ∨
        i.snoopReqWbinv = false ∧ x = i.snoopReqAddr) := by
  simp only [accepted] at h
  split at h
  · rw [List.mem_singleton, Access.ofSnoop] at h
    by_cases hw : (s.pins i).snoopReqWbinv = true
    · rw [if_pos hw] at h
      cases h
    · rw [if_neg hw] at h
      cases h
      exact ⟨rfl, .inr ⟨by simpa [pins] using hw, rfl⟩⟩
  · split at h
    · rw [List.mem_singleton, Access.ofReq] at h
      cases ho : (s.pins i).req.opcode <;> rw [ho] at h <;> cases h
      exact ⟨rfl, .inl ⟨ho, rfl⟩⟩
    · cases h

/-- **The L2 refines memory.**  In every state reachable from reset: a load response
answers the load accepted last, with the abstract value of its line; in `IDLE` the abstract
value of a line is the L2's copy when the line is valid there and DRAM's otherwise, and a
valid clean copy equals DRAM; and an operation that makes a line fall back to DRAM is a
page drop or a discarding snoop. -/
theorem l2_refines_memory (g : Geometry) (dataRam0 : Hw.RegRam Line) (tagRam : Hw.RegRam Nat)
    (validRam dirtyRam : Hw.RegRam Bool) (presRam : Hw.RegRam Pres) (dram : Mem)
    (is : List L2Stim) :
    let s := (reset dataRam0 tagRam validRam dirtyRam presRam dram).run g is
    (s.l2.regs.rspValid = true → s.l2.regs.opcode = .lw →
      s.log.getLast? = some (.load s.l2.regs.saveaddr) ∧
        s.l2.regs.rspData = specMem dram s.log s.l2.regs.saveaddr) ∧
    (s.l2.regs.state = .idle → ∀ x,
      (specMem dram s.log x =
        if s.l2.Has g x then (s.l2.entry (g.l2Idx x)).d0 else s.dram x) ∧
      (s.l2.Has g x → (s.l2.entry (g.l2Idx x)).dirty = false →
        (s.l2.entry (g.l2Idx x)).d0 = s.dram x)) ∧
    (∀ i x data, Access.drop x data ∈ s.accepted g i →
      data = s.dram x ∧
        (i.req.opcode = .pgdrop ∧ x = i.req.addr ∨
          i.snoopReqWbinv = false ∧ x = i.snoopReqAddr)) := by
  intro s
  have h : Inv g dram s := (inv_reset _ _ _ _ _ _).run is
  refine ⟨fun hr ho => ⟨h.serving ho (.inl hr), h.answer hr ho⟩, fun hs x => h.idle hs x, ?_⟩
  exact fun i x data hmem => accepted_drop hmem

end L2Sys

end R9999
