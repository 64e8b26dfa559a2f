import R9999.Hierarchy.Memory

/-!
# Coherence

`Serve` lists what the L2 can do at a clock edge to the memory below and to the one the
processor sees.  With `Turn` it gives the step lemma `newest_next`: every clock edge that is
`Safe` keeps the newest value of each line where `Newest` looks for it.

`hierarchy_refines_memory` reads off what the processor gets: the loads that hit, the replies
of the L2 and what lies in the L2 and DRAM all have the value of one memory.
-/

namespace R9999

namespace Hier

open L2View (accepts acceptsSnoop access discards looking MemInv)

variable {g : Geometry} {s : Hier} {i : Stim}

/-! ## The L2's part of a clock edge -/

section Serve

variable (hs : Sound g s)

include hs

/-- What the L2 serves for the L1D after the edge. -/
theorem servesD_next : (s.next g i).servesD =
    ((s.servesD && !s.l2.regs.rspValid) ||
      (accepts s.l2.regs (s.l2Pins g i) && (s.l2Req g).fromD)) := by
  have hstep := hs.l2Step (i := i)
  rw [servesD, servesD, hs.wf.served_next]
  cases ha : accepts s.l2.regs (s.l2Pins g i) with
  | true =>
    have hf : (s.next g i).l2.regs.fromD = (s.l2Req g).fromD :=
      (L2View.accepted_step hstep ha).fromD
    rw [hs.wf.served_of_accepts ha, hf]
    simp
  | false =>
    cases hsv : (s.served && !s.l2.regs.rspValid) with
    | true =>
      have hi : s.l2.view.regs.state ≠ .idle := by
        intro hi
        have hi' : s.l2.regs.state = .idle := hi
        rw [Bool.and_eq_true, Bool.not_eq_true'] at hsv
        have ho : L2View.owes s.l2.regs = true := by simpa [served, hsv.2] using hsv.1
        simp [L2View.owes, hi'] at ho
      have hf : (s.next g i).l2.regs.fromD = s.l2.regs.fromD :=
        (L2View.sameReq_step hstep hi).fromD
      rw [hf]
      revert hsv
      cases s.served <;> cases s.l2.regs.rspValid <;> simp
    | false =>
      revert hsv
      cases s.served <;> cases s.l2.regs.rspValid <;> simp

/-- A request of the L1D is held while it is not answered. -/
theorem held_of_out (ho : s.l1dOut = true) (hr : s.l1dRsp = false) :
    (s.next g i).l1dOut = true ∧ (s.next g i).l1d.regs.memReq = s.l1d.regs.memReq := by
  obtain ⟨hout, -⟩ := L1d.out_step (hs.l1dStep (i := i)) hs.wf.pipe hs.wf.expects
  refine ⟨?_, hs.memReq_held ho⟩
  change (s.next g i).l1d.regs.proto.out = true
  rw [hout, show s.l1d.regs.proto.out = true from ho, show (s.l1dPins i).memRspValid = false from hr]
  rfl

/-- A writeback stays in flight until the L2 accepts it. -/
theorem flight_kept {x : LineAddr} (hf : Flight s x)
    (ha : (accepts s.l2.regs (s.l2Pins g i) && (s.l2Req g).fromD) = false) :
    Flight (s.next g i) x := by
  obtain ⟨ho, hsv, hq, hx⟩ := hf
  have hr : s.l1dRsp = false := by
    cases hr : s.l1dRsp
    · rfl
    · exact absurd (hs.servesD_of_rsp hr) (by simp [hsv])
  obtain ⟨ho', hq'⟩ := held_of_out hs ho hr (i := i)
  refine ⟨ho', ?_, by rw [hq']; exact hq, by rw [hq']; exact hx⟩
  rw [servesD_next hs, hsv, ha]
  rfl

/-- A writeback that is sent is in flight. -/
theorem flight_sent (hv : (nextProto g s i).memReqValid = true)
    (hq : (nextProto g s i).memReq.Stores) :
    Flight (s.next g i) (nextProto g s i).memReq.addr := by
  obtain ⟨hout, hnew⟩ := L1d.out_step (hs.l1dStep (i := i)) hs.wf.pipe hs.wf.expects
  have ho : s.l1dOut = false := hnew hv
  refine ⟨?_, ?_, hq, rfl⟩
  · change (s.next g i).l1d.regs.proto.out = true
    rw [hout, show (s.next g i).l1d.regs.proto.memReqValid = true from hv, Bool.or_true]
  · rw [servesD_next hs]
    cases hsv : s.servesD with
    | true => exact absurd (hs.out_of_servesD hsv) (by simp [ho])
    | false =>
      cases ha : accepts s.l2.regs (s.l2Pins g i) with
      | false => rfl
      | true =>
        cases hf : (s.l2Req g).fromD
        · rfl
        · exact absurd (hs.req_of_accepts ha hf).1 (by simp [ho])

/-- A writeback in flight was so before, or is being sent. -/
theorem flight_next {x : LineAddr} (hf : Flight (s.next g i) x) :
    Flight s x ∧ (s.next g i).l1d.regs.memReq = s.l1d.regs.memReq ∧ s.l1dRsp = false ∨
      (nextProto g s i).memReqValid = true ∧ (nextProto g s i).memReq.Stores ∧
        (nextProto g s i).memReq.addr = x := by
  obtain ⟨ho, hsv, hq, hx⟩ := hf
  obtain ⟨hout, -⟩ := L1d.out_step (hs.l1dStep (i := i)) hs.wf.pipe hs.wf.expects
  have ho' : (s.next g i).l1d.regs.proto.out = true := ho
  rw [hout, Bool.or_eq_true, Bool.and_eq_true, Bool.not_eq_true'] at ho'
  rcases ho' with ⟨ho', hr⟩ | hv
  · have hq' := hs.memReq_held ho' (i := i)
    have hr' : s.l1dRsp = false := hr
    refine .inl ⟨⟨ho', ?_, by rwa [hq'] at hq, by rwa [hq'] at hx⟩, hq', hr'⟩
    rw [servesD_next hs, Bool.or_eq_false_iff] at hsv
    have hroute := hs.wf.route.1
    rw [hr'] at hroute
    cases hsd : s.servesD
    · rfl
    · rw [hsd, Bool.true_and, Bool.not_eq_false'] at hsv
      rw [servesD, Bool.and_eq_true] at hsd
      rw [hsv.1, hsd.2] at hroute
      cases hroute
  · exact .inr ⟨hv, hq, hx⟩

/-- A line that was condemned still is, or its operation is done and the L1D does not hold
it. -/
theorem condemned_kept (hp : Present g s) {x : LineAddr} (hc : Condemned s x) :
    Condemned (s.next g i) x ∨ Absent g s x := by
  obtain ⟨hl, hd, hx⟩ := hc
  have hi : s.l2.view.regs.state ≠ .idle := by
    intro hi
    have hi' : s.l2.regs.state = .idle := hi
    rw [hi'] at hl
    cases hl
  have hsame := L2View.sameReq_step (hs.l2Step (i := i)) hi
  rcases L2View.discard_step (hs.l2Step (i := i)) hs.wf.ctl hl hd with hl' | ⟨hst, hu, hn⟩
  · refine .inl ⟨hl', ?_, hsame.saveaddr.trans hx⟩
    have h1 : (s.next g i).l2.regs.opcode = s.l2.regs.opcode := hsame.opcode
    have h2 : (s.next g i).l2.regs.snpWbinv = s.l2.regs.snpWbinv := hsame.snpWbinv
    unfold discards at hd ⊢
    rw [h1, h2]
    exact hd
  · refine .inr ?_
    have hst' : s.l2.regs.state = .checkValidAndTag := hst
    have hm := hs.wf.ctl.mode
    rw [L2View.Mode, hst] at hm
    subst hx
    cases hh : L2.hit s.l2.view.regs s.l2.view.cur with
    | true =>
      refine hp.absent_of_takes hs hst' ⟨hh, .inr ⟨hn, fun ho => ?_⟩⟩
      have ho' : s.l2.regs.opcode = .lw := ho
      simp [discards, ho'] at hd
    | false =>
      -- a line that is not in the L2 is not in the L1D
      intro j hj
      have hcur := (hp.incl _ j hj).cur_of_idx hm.1.1.symm
      have htag : s.l2.view.cur.tag = s.l2.view.regs.tag := hcur.2.1.trans hm.1.2.symm
      simp [L2.hit, hcur.1, htag] at hh

/-- A line that is condemned was so before, or its operation has just been accepted. -/
theorem condemned_next {x : LineAddr} (hc : Condemned (s.next g i) x) :
    Condemned s x ∨
      (accepts s.l2.regs (s.l2Pins g i) = true ∧ (s.l2Req g).opcode = .pgdrop ∧
        (s.l2Req g).addr = x) ∨
      (acceptsSnoop s.l2.regs (s.l2Pins g i) = true ∧ i.snoopReqWbinv = false ∧
        i.snoopReqAddr = x) := by
  obtain ⟨hl, hd, hx⟩ := hc
  have hstep := hs.l2Step (i := i)
  by_cases hi : s.l2.view.regs.state = .idle
  · cases ha : accepts s.l2.regs (s.l2Pins g i) with
    | true =>
      have hnew := L2View.accepted_step hstep ha
      have hv : (s.l2Pins g i).reqValid = true := by
        simp only [accepts, Bool.and_eq_true] at ha
        exact ha.2
      have hok : ReqOk (s.l2Req g) := hs.wf.reqOk hv
      have h1 : (s.next g i).l2.regs.opcode = (s.l2Req g).opcode := hnew.opcode
      have h2 : (s.next g i).l2.regs.saveaddr = (s.l2Req g).addr := hnew.saveaddr
      refine .inr (.inl ⟨rfl, ?_, h2.symm.trans hx⟩)
      have hns : (s.l2Req g).opcode ≠ .snoopInvl := by
        intro ho
        simp [ReqOk, ho] at hok
      simpa [discards, h1, hns] using hd
    | false =>
      cases hn : acceptsSnoop s.l2.regs (s.l2Pins g i) with
      | true =>
        obtain ⟨-, ho, hsa, hw, -⟩ := L2View.acceptedSnoop_step hstep hn
        have h1 : (s.next g i).l2.regs.opcode = .snoopInvl := ho
        have h2 : (s.next g i).l2.regs.snpWbinv = i.snoopReqWbinv := hw
        have h3 : (s.next g i).l2.regs.saveaddr = i.snoopReqAddr := hsa
        refine .inr (.inr ⟨rfl, ?_, h3.symm.trans hx⟩)
        simpa [discards, h1, h2] using hd
      | false => exact absurd (L2View.rest_of_idle hstep hi ha hn) (by simp [show
          looking (s.next g i).l2.view.regs.state = true from hl])
  · obtain ⟨hlk, -⟩ := L2View.looking_step hstep hi hl
    have hsame := L2View.sameReq_step hstep hi
    have h1 : (s.next g i).l2.regs.opcode = s.l2.regs.opcode := hsame.opcode
    have h2 : (s.next g i).l2.regs.snpWbinv = s.l2.regs.snpWbinv := hsame.snpWbinv
    refine .inl ⟨hlk, ?_, hsame.saveaddr.symm.trans hx⟩
    unfold discards at hd ⊢
    rw [h1, h2] at hd
    exact hd

end Serve

/-- What the L2 does to the memory below and to the one the processor sees. -/
inductive Serve (g : Geometry) (s : Hier) (i : Stim) (M V : Mem) : Mem → Mem → Prop
  /-- A writeback is accepted. -/
  | store (ha : accepts s.l2.regs (s.l2Pins g i) = true) (hf : (s.l2Req g).fromD = true)
      (hq : s.l1d.regs.memReq.Stores) :
      Serve g s i M V (Function.update M s.l1d.regs.memReq.addr s.l1d.regs.memReq.storeData) V
  /-- An uncached store is accepted. -/
  | write (ha : accepts s.l2.regs (s.l2Pins g i) = true) (hf : (s.l2Req g).fromD = true)
      (hc : s.l1d.regs.memReq.cacheable = false) (x : LineAddr) (hx : s.l1d.regs.memReq.addr = x)
      (mask : Mask) (data : Line) :
      Serve g s i M V (Function.update M x (Line.merge mask data (M x)))
        (Function.update V x (Line.merge mask data (V x)))
  /-- A page drop is accepted. -/
  | drop (ha : accepts s.l2.regs (s.l2Pins g i) = true) (hf : (s.l2Req g).fromD = true)
      (ho : s.l1d.regs.memReq.opcode = .pgdrop) (x : LineAddr) (hx : s.l1d.regs.memReq.addr = x) :
      Serve g s i M V (Function.update M x (s.dram x)) (Function.update V x (s.dram x))
  /-- A request that changes nothing is accepted. -/
  | ask (ha : accepts s.l2.regs (s.l2Pins g i) = true)
      (hq : (s.l2Req g).fromD = true → ¬ s.l1d.regs.memReq.Stores)
      (ho : (s.l2Req g).opcode ≠ .pgdrop) : Serve g s i M V M V
  /-- A snoop is accepted that discards its line. -/
  | discard (ha : acceptsSnoop s.l2.regs (s.l2Pins g i) = true) (hw : i.snoopReqWbinv = false)
      (x : LineAddr) (hx : i.snoopReqAddr = x) :
      Serve g s i M V (Function.update M x (s.dram x))
        (if Flight (s.next g i) x then V else Function.update V x (s.dram x))
  /-- A snoop is accepted that writes its line back. -/
  | clean (ha : acceptsSnoop s.l2.regs (s.l2Pins g i) = true) (hw : i.snoopReqWbinv = true) :
      Serve g s i M V M V
  /-- The reply to a probe is taken. -/
  | land (hr : Reply s s.l2.regs.probeAddr) :
      Serve g s i M V (Function.update M s.l2.regs.probeAddr s.l1d.regs.prbData) V
  | rest (ha : accepts s.l2.regs (s.l2Pins g i) = false)
      (hn : acceptsSnoop s.l2.regs (s.l2Pins g i) = false) (hr : ∀ x, ¬ Reply s x) :
      Serve g s i M V M V

theorem accepts_not_snoop (ha : accepts s.l2.regs (s.l2Pins g i) = true) :
    acceptsSnoop s.l2.regs (s.l2Pins g i) = false := by
  simp only [accepts, Bool.and_eq_true, Bool.not_eq_true'] at ha
  simp [acceptsSnoop, ha.1.2]

/-- A request of the L1D. -/
theorem serve_l1d (hs : Sound g s) (hnc : s.nocache = false)
    (ha : accepts s.l2.regs (s.l2Pins g i) = true) (hf : (s.l2Req g).fromD = true) (M V : Mem) :
    Serve g s i M V ((Access.ofReq (s.l2Pins g i) s.dram).apply M) ((l2Change g s i).apply V) := by
  have hok : ReqOk (s.l2Req g) := by
    refine hs.wf.reqOk (i := i) ?_
    simp only [accepts, Bool.and_eq_true] at ha
    exact ha.2
  obtain ⟨-, hreq⟩ := hs.req_of_accepts ha hf
  have ho : (s.l2Req g).opcode = s.l1d.regs.memReq.opcode := by rw [hreq]
  have hc : (s.l2Req g).cacheable = s.l1d.regs.memReq.cacheable := by rw [hreq]
  have hx : (s.l2Req g).addr = s.l1d.regs.memReq.addr := by rw [hreq]
  have hd : (s.l2Req g).storeData = s.l1d.regs.memReq.storeData := by rw [hreq]
  have hpins : (s.l2Pins g i).req = s.l2Req g := rfl
  have hca : L2.l2Cacheable (s.l2Pins g i) = s.l1d.regs.memReq.cacheable :=
    (l2Cacheable_eq hnc).trans hc
  have hnot : ∀ {op : MemOp}, s.l1d.regs.memReq.opcode = op → op ≠ .sw → op ≠ .wb →
      ¬ s.l1d.regs.memReq.Stores := by
    rintro op hop h1 h2 ⟨-, h | h⟩
    · exact h1 (hop.symm.trans h)
    · exact h2 (hop.symm.trans h)
  unfold Access.ofReq l2Change
  simp only [hpins, hca, if_pos ha]
  rw [ho, hc, hx, hd]
  unfold ReqOk at hok
  rw [ho, hc] at hok
  cases hcc : s.l1d.regs.memReq.cacheable with
  | true =>
    rw [if_pos hcc] at hok
    rcases hok with hop | hop | hop | hop | hop
    · rw [hop]
      exact .ask ha (fun _ => hnot hop (by decide) (by decide)) (by rw [ho, hop]; decide)
    · rw [hop]
      simp only [Access.apply, if_true, Line.merge_full]
      exact .store ha hf ⟨hcc, .inl hop⟩
    · rw [hop]
      simp only [Access.apply, Line.merge_full]
      exact .store ha hf ⟨hcc, .inr hop⟩
    · rw [hop]
      exact .ask ha (fun _ => hnot hop (by decide) (by decide)) (by rw [ho, hop]; decide)
    · rw [hop]
      exact .drop ha hf hop _ rfl
  | false =>
    rw [if_neg (by simp [hcc])] at hok
    rcases hok with hop | hop
    · rw [hop]
      exact .ask ha (fun _ => hnot hop (by decide) (by decide)) (by rw [ho, hop]; decide)
    · rw [hop]
      exact .write ha hf hcc _ rfl _ _

theorem serve (hs : Sound g s) (hnc : s.nocache = false) (M V : Mem) :
    Serve g s i M V ((access g s.l2.view (s.l2Pins g i) s.dram).apply M)
      ((l2Change g s i).apply V) := by
  cases ha : accepts s.l2.regs (s.l2Pins g i) with
  | true =>
    have ha' := ha
    simp only [accepts, Bool.and_eq_true, Bool.not_eq_true', decide_eq_true_eq] at ha'
    obtain ⟨⟨⟨hi, hfl⟩, hns⟩, hv⟩ := ha'
    have hi' : s.l2.view.regs.state = .idle := hi
    have hfl' : (L2View.tick s.l2.view.regs (s.l2Pins g i)).flushReq = false := hfl
    have hacc : access g s.l2.view (s.l2Pins g i) s.dram = .ofReq (s.l2Pins g i) s.dram := by
      simp [access, hi', hfl', hns, hv]
    rw [hacc]
    cases hf : (s.l2Req g).fromD with
    | true => exact serve_l1d hs hnc ha hf M V
    | false =>
      have ho : (s.l2Req g).opcode = .lw := by
        rw [l2Req_fromD] at hf
        have hst : s.arb.state = .gntL1i := by simpa using hf
        rw [l2Req, if_pos hst]
      have h1 : (Access.ofReq (s.l2Pins g i) s.dram).apply M = M := by
        simp [Access.ofReq, show (s.l2Pins g i).req = s.l2Req g from rfl, ho, Access.apply]
      have h2 : (l2Change g s i).apply V = V := by
        simp [l2Change, ha, ho, Access.apply]
      rw [h1, h2]
      exact .ask ha (fun h => absurd (h.symm.trans hf) (by decide)) (by rw [ho]; decide)
  | false =>
    cases hn : acceptsSnoop s.l2.regs (s.l2Pins g i) with
    | true =>
      have hn' := hn
      simp only [acceptsSnoop, Bool.and_eq_true, Bool.not_eq_true', decide_eq_true_eq] at hn'
      obtain ⟨⟨hi, hfl⟩, hv⟩ := hn'
      have hi' : s.l2.view.regs.state = .idle := hi
      have hfl' : (L2View.tick s.l2.view.regs (s.l2Pins g i)).flushReq = false := hfl
      have hacc : access g s.l2.view (s.l2Pins g i) s.dram = .ofSnoop (s.l2Pins g i) s.dram := by
        simp [access, hi', hfl', hv]
      have hof : Access.ofSnoop (s.l2Pins g i) s.dram =
          if i.snoopReqWbinv then .clean i.snoopReqAddr
          else .drop i.snoopReqAddr (s.dram i.snoopReqAddr) := rfl
      rw [hacc, hof]
      cases hw : i.snoopReqWbinv with
      | true =>
        have hV : (l2Change g s i).apply V = V := by simp [l2Change, ha, hw, Access.apply]
        rw [hV]
        exact .clean hn hw
      | false =>
        have hV : (l2Change g s i).apply V = if Flight (s.next g i) i.snoopReqAddr then V
            else Function.update V i.snoopReqAddr (s.dram i.snoopReqAddr) := by
          by_cases hfl : Flight (s.next g i) i.snoopReqAddr
          · simp [l2Change, ha, hfl, Access.apply]
          · simp [l2Change, ha, hn, hw, hfl, Access.apply]
        rw [hV]
        exact .discard hn hw _ rfl
    | false =>
      have hV : (l2Change g s i).apply V = V := by simp [l2Change, ha, hn, Access.apply]
      rw [hV]
      by_cases hr : ∃ x, Reply s x
      · obtain ⟨x, hr⟩ := hr
        have hr' : Reply s s.l2.regs.probeAddr := ⟨hr.1, hr.2.1, hr.2.2.1, rfl⟩
        obtain ⟨hpr, -⟩ := hs.wf.probing.ack hr.1
        obtain ⟨hst, hnp, hpa, -⟩ := hs.wf.pulses.probe hpr
        have hpa' : s.l2.regs.probeAddr = g.l2Line s.l2.view.cur.tag s.l2.view.regs.idx := hpa
        have hdis : discards s.l2.view.regs = false := hr.2.2.1
        have hacc := L2View.access_probe (g := g) (i := s.l2Pins g i) (M := M) (d := s.dram)
          hst hnp hpr hr.1 hr.2.1
        rw [hdis, if_neg Bool.false_ne_true] at hacc
        have hland : (access g s.l2.view (s.l2Pins g i) s.dram).apply M =
            Function.update M s.l2.regs.probeAddr s.l1d.regs.prbData := by
          rw [hacc, hpa']
          rfl
        rw [hland]
        exact .land hr'
      · have hM : (access g s.l2.view (s.l2Pins g i) s.dram).apply M = M := by
          by_cases hi : s.l2.view.regs.state = .idle
          · have hi' : s.l2.regs.state = .idle := hi
            simp only [access, hi]
            cases hfl : (L2View.tick s.l2.view.regs (s.l2Pins g i)).flushReq with
            | true => rfl
            | false =>
              have hfl' : (L2View.tick s.l2.regs (s.l2Pins g i)).flushReq = false := hfl
              have hsn : (s.l2Pins g i).snoopReqValid = false := by
                simpa [acceptsSnoop, hi', hfl'] using hn
              have hv : (s.l2Pins g i).reqValid = false := by
                simpa [accepts, hi', hfl', hsn] using ha
              simp [hsn, hv, Access.apply]
          · by_cases hst : s.l2.view.regs.state = .checkValidAndTag
            · simp only [access, hst]
              by_cases hc : (L2View.needsProbe s.l2.view.regs s.l2.view.cur &&
                  s.l2.view.regs.probeReq && (s.l2Pins g i).probeAck &&
                  (s.l2Pins g i).probeDirty && !discards s.l2.view.regs) = true
              · simp only [Bool.and_eq_true, Bool.not_eq_true'] at hc
                exact absurd ⟨_, hc.1.1.2, hc.1.2, hc.2, rfl⟩ hr
              · rw [if_neg hc]
                rfl
            · exact L2View.access_apply_other hi hst
        rw [hM]
        exact .rest ha hn fun x hx => hr ⟨x, hx⟩

/-! ## One clock edge -/

theorem idle_of_accepts (ha : accepts s.l2.regs (s.l2Pins g i) = true) :
    s.l2.regs.state = .idle := by
  simp only [accepts, Bool.and_eq_true, decide_eq_true_eq] at ha
  exact ha.1.1.1

theorem idle_of_snoop (ha : acceptsSnoop s.l2.regs (s.l2Pins g i) = true) :
    s.l2.regs.state = .idle := by
  simp only [acceptsSnoop, Bool.and_eq_true, decide_eq_true_eq] at ha
  exact ha.1.1

/-- The L2 works while it serves a request that it has not answered. -/
theorem not_idle_of_servesD (hsd : s.servesD = true) (hr : s.l2.regs.rspValid = false) :
    s.l2.regs.state ≠ .idle := by
  intro hi
  rw [servesD, Bool.and_eq_true] at hsd
  have ho : L2View.owes s.l2.regs = true := by simpa [served, hr] using hsd.1
  simp [L2View.owes, hi] at ho

theorem not_accepts_of_snoop (hn : acceptsSnoop s.l2.regs (s.l2Pins g i) = true) :
    accepts s.l2.regs (s.l2Pins g i) = false := by
  cases ha : accepts s.l2.regs (s.l2Pins g i)
  · rfl
  · exact absurd (accepts_not_snoop ha) (by simp [hn])

section Next

variable (hs : Sound g s)

include hs

theorem not_idle_of_ack (ha : s.l1d.regs.prbAck = true) : s.l2.regs.state ≠ .idle := by
  obtain ⟨hr, -⟩ := hs.wf.probing.ack ha
  have hst : s.l2.regs.state = .checkValidAndTag := (hs.wf.pulses.probe hr).1
  rw [hst]
  decide

/-- The acknowledge of a probe answers a probe the L2 holds. -/
theorem probe_of_ack (ha : (nextProto g s i).prbAck = true) :
    s.l1d.regs.state = .probeChk ∧ s.l2.regs.state = .checkValidAndTag ∧
      (s.next g i).l2.regs.probeAddr = s.l2.regs.probeAddr ∧
      discards (s.next g i).l2.regs = discards s.l2.regs := by
  have hstep : L1d.Step g s.l1d (s.l1dPins i) (nextProto g s i) (nextArr g s i) := hs.l1dStep
  have hst : s.l1d.regs.state = .probeChk := by
    by_contra hst
    exact absurd (ha.symm.trans (L1d.takeProbe_step hstep hst).1) (by decide)
  obtain ⟨hr, -⟩ := hs.wf.probing.chk hst
  have hna : s.l1d.regs.prbAck = false := by
    cases hk : s.l1d.regs.prbAck
    · rfl
    · exact absurd hst (hs.wf.probing.ack hk).2.2
  have hck : s.l2.regs.state = .checkValidAndTag := (hs.wf.pulses.probe hr).1
  have hsame := L2View.sameReq_step (hs.l2Step (i := i)) (by
    rw [show s.l2.view.regs.state = .checkValidAndTag from hck]
    decide)
  have h1 : (s.next g i).l2.regs.opcode = s.l2.regs.opcode := hsame.opcode
  have h2 : (s.next g i).l2.regs.snpWbinv = s.l2.regs.snpWbinv := hsame.snpWbinv
  refine ⟨hst, hck, (hs.wf.probe_held hr hna).2.1, ?_⟩
  unfold discards
  rw [h1, h2]

/-- The L2's part of the edge leaves a newer value where it is. -/
theorem ahead_of_between {x : LineAddr} (hb : Between g s i x)
    (hc : ¬ Condemned s x → ¬ Condemned (s.next g i) x)
    (hf : Flight s x → (accepts s.l2.regs (s.l2Pins g i) && (s.l2Req g).fromD) = false)
    (hr : ¬ Reply s x) : Ahead g (s.next g i) x := by
  rcases hb with ⟨hcx, j, hj, hd⟩ | hfl | hrp | ⟨hv, hq, hx⟩ | ⟨ha, hd, hdis, hx⟩
  · exact .inl ⟨hc hcx, j, hj, hd⟩
  · exact .inr (.inl (flight_kept hs hfl (hf hfl)))
  · exact absurd hrp hr
  · subst hx
    exact .inr (.inl (flight_sent hs hv hq))
  · obtain ⟨-, -, hpa, hdd⟩ := probe_of_ack hs ha
    exact .inr (.inr ⟨ha, hd, hdd.trans hdis, hpa.trans hx⟩)

/-- The L1D only waits while the L2 accepts its request. -/
theorem wait_of_accepts (ha : accepts s.l2.regs (s.l2Pins g i) = true)
    (hf : (s.l2Req g).fromD = true) : s.l1dOut = true ∧ s.l1dRsp = false ∧
      s.servesD = false ∧ (s.next g i).l1d.regs.memReq = s.l1d.regs.memReq ∧
      (s.l2Req g).addr = s.l1d.regs.memReq.addr ∧
      (s.l2Req g).opcode = s.l1d.regs.memReq.opcode ∧
      (s.l2Req g).cacheable = s.l1d.regs.memReq.cacheable := by
  obtain ⟨ho, hreq⟩ := hs.req_of_accepts ha hf
  have hsv := hs.wf.served_of_accepts ha
  have hsd : s.servesD = false := by simp [servesD, hsv]
  refine ⟨ho, ?_, hsd, hs.memReq_held ho, by rw [hreq], by rw [hreq], by rw [hreq]⟩
  cases hr : s.l1dRsp
  · rfl
  · exact absurd (hs.servesD_of_rsp hr) (by simp [hsd])

/-- A page drop that is accepted condemns its line. -/
theorem condemned_of_drop (ha : accepts s.l2.regs (s.l2Pins g i) = true)
    (ho : (s.l2Req g).opcode = .pgdrop) : Condemned (s.next g i) (s.l2Req g).addr := by
  have hnew := L2View.accepted_step (hs.l2Step (i := i)) ha
  have h1 : (s.next g i).l2.regs.opcode = (s.l2Req g).opcode := hnew.opcode
  have h2 : (s.next g i).l2.regs.state = .waitForRam := hnew.state
  exact ⟨by rw [h2]; rfl, by simp [discards, h1, ho], hnew.saveaddr⟩

/-- So does a discarding snoop. -/
theorem condemned_of_snoop (ha : acceptsSnoop s.l2.regs (s.l2Pins g i) = true)
    (hw : i.snoopReqWbinv = false) : Condemned (s.next g i) i.snoopReqAddr := by
  obtain ⟨h1, h2, h3, h4, -⟩ := L2View.acceptedSnoop_step (hs.l2Step (i := i)) ha
  have h1' : (s.next g i).l2.regs.state = .waitForRam := h1
  have h2' : (s.next g i).l2.regs.opcode = .snoopInvl := h2
  have h4' : (s.next g i).l2.regs.snpWbinv = i.snoopReqWbinv := h4
  exact ⟨by rw [h1']; rfl, by simp [discards, h2', h4', hw], h3⟩

/-- A line that no accepted operation is about to discard is spared. -/
theorem spared_next {x : LineAddr} (hc : ¬ Condemned s x)
    (hd : accepts s.l2.regs (s.l2Pins g i) = true → (s.l2Req g).opcode = .pgdrop →
      (s.l2Req g).addr ≠ x)
    (hn : acceptsSnoop s.l2.regs (s.l2Pins g i) = true → i.snoopReqWbinv = false →
      i.snoopReqAddr ≠ x) : ¬ Condemned (s.next g i) x := by
  intro hc'
  rcases condemned_next hs hc' with h | ⟨ha, ho, hx⟩ | ⟨ha, hw, hx⟩
  · exact hc h
  · exact hd ha ho hx
  · exact hn ha hw hx

/-- A line that the L2 leaves alone. -/
theorem base_kept {M V M' V' : Mem} {x : LineAddr} (hb : V x = M x ∨ Between g s i x)
    (h1 : V' x = V x) (h2 : M' x = M x)
    (hd : accepts s.l2.regs (s.l2Pins g i) = true → (s.l2Req g).opcode = .pgdrop →
      (s.l2Req g).addr ≠ x)
    (hn : acceptsSnoop s.l2.regs (s.l2Pins g i) = true → i.snoopReqWbinv = false →
      i.snoopReqAddr ≠ x)
    (hf : Flight s x → (accepts s.l2.regs (s.l2Pins g i) && (s.l2Req g).fromD) = false)
    (hr : ¬ Reply s x) : V' x = M' x ∨ Ahead g (s.next g i) x := by
  rcases hb with hb | hb
  · exact .inl (h1.trans (hb.trans h2.symm))
  · exact .inr (ahead_of_between hs hb (fun hc => spared_next hs hc hd hn) hf hr)

variable {m : Seen} (hn : Newest g s m) {V M' V' : Mem}
  (ht : Turn g s (nextProto g s i) (nextArr g s i) m.below m.cpu V)
  (hv : Serve g s i m.below V M' V')

include hn ht hv

theorem flight_value (x : LineAddr) (hf : Flight (s.next g i) x) :
    (nextProto g s i).memReq.storeData = V' x := by
  have hV : (nextProto g s i).memReq.storeData = V x := by
    rcases flight_next hs hf with ⟨hf', hq, -⟩ | ⟨h1, h2, h3⟩
    · rw [ht.frame_of_out hf'.1, show (nextProto g s i).memReq = s.l1d.regs.memReq from hq]
      exact hn.flight x hf'
    · subst h3
      exact flight_turn hn ht h1 h2
  have hno : accepts s.l2.regs (s.l2Pins g i) = true → (s.l2Req g).fromD = true → False := by
    intro ha hfd
    have hsv := hf.2.1
    rw [servesD_next hs, ha, hfd, Bool.and_self, Bool.or_true] at hsv
    cases hsv
  rw [hV]
  cases hv with
  | write ha hfd => exact (hno ha hfd).elim
  | drop ha hfd => exact (hno ha hfd).elim
  | discard ha hw y hy =>
    by_cases hxy : x = y
    · subst hxy
      rw [if_pos hf]
    · split
      · rfl
      · rw [Function.update_of_ne hxy]
  | _ => rfl

theorem landed_next (hsv : (s.next g i).servesD = true)
    (hq : (s.next g i).l1d.regs.memReq.Stores) :
    (s.next g i).l1d.regs.memReq.storeData = V' (s.next g i).l1d.regs.memReq.addr ∧
      (s.next g i).l1d.regs.memReq.storeData = M' (s.next g i).l1d.regs.memReq.addr := by
  rw [servesD_next hs, Bool.or_eq_true, Bool.and_eq_true, Bool.and_eq_true, Bool.not_eq_true']
    at hsv
  rcases hsv with ⟨hsd, hr⟩ | ⟨ha, hf⟩
  · -- it was in service
    have ho := hs.out_of_servesD hsd
    have hmr := hs.memReq_held ho (i := i)
    rw [hmr] at hq ⊢
    obtain ⟨h1, h2⟩ := hn.landed hsd hq
    have hi := not_idle_of_servesD hsd hr
    have hV := ht.frame_of_out ho s.l1d.regs.memReq.addr
    cases hv with
    | store ha' | write ha' | drop ha' | ask ha' => exact absurd (idle_of_accepts ha') hi
    | discard ha' | clean ha' => exact absurd (idle_of_snoop ha') hi
    | land hr' =>
      refine ⟨h1.trans hV.symm, ?_⟩
      by_cases hx : s.l1d.regs.memReq.addr = s.l2.regs.probeAddr
      · rw [hx, Function.update_self, hn.reply _ hr', ← hx]
        exact h1
      · rw [Function.update_of_ne hx]
        exact h2
    | rest => exact ⟨h1.trans hV.symm, h2⟩
  · -- it has just been accepted
    obtain ⟨ho, -, hsd, hmr, -⟩ := wait_of_accepts hs ha hf
    rw [hmr] at hq ⊢
    have hV := ht.frame_of_out ho s.l1d.regs.memReq.addr
    have hfl := hn.flight _ ⟨ho, hsd, hq, rfl⟩
    cases hv with
    | store => exact ⟨hfl.trans hV.symm, by rw [Function.update_self]⟩
    | write _ _ hc => exact absurd (hq.1.symm.trans hc) (by decide)
    | drop _ _ hop =>
      rcases hq.2 with h | h <;> exact absurd (hop.symm.trans h) (by decide)
    | ask _ hq' => exact absurd hq (hq' hf)
    | discard ha' | clean ha' => exact absurd (accepts_not_snoop ha) (by simp [ha'])
    | land hr' => exact absurd (idle_of_accepts ha) (not_idle_of_ack hs hr'.1)
    | rest ha' => exact absurd ha (by simp [ha'])

variable (hu : Safe g s i)

include hu

theorem reply_value (x : LineAddr) (hr : Reply (s.next g i) x) :
    (nextProto g s i).prbData = V' x := by
  obtain ⟨ha, hd, hdis, hx⟩ := hr
  obtain ⟨-, hck, hpa, hdd⟩ := probe_of_ack hs ha
  have hV := reply_turn hs hn ht hu.2 ha hd (hdd.symm.trans hdis)
  rw [hV, ← hpa, hx]
  have hi : s.l2.regs.state ≠ .idle := by
    rw [hck]
    decide
  cases hv with
  | write ha' | drop ha' => exact absurd (idle_of_accepts ha') hi
  | discard ha' => exact absurd (idle_of_snoop ha') hi
  | _ => rfl

omit hv in
/-- The line of an uncached access that is accepted is the same in both memories. -/
theorem base_bare (ha : accepts s.l2.regs (s.l2Pins g i) = true)
    (hf : (s.l2Req g).fromD = true) (hc : s.l1d.regs.memReq.cacheable = false) :
    V s.l1d.regs.memReq.addr = m.below s.l1d.regs.memReq.addr := by
  obtain ⟨ho, -, -, -, hqa, -, hqc⟩ := wait_of_accepts hs ha hf
  have habs := hu.1.2 ha (hqc.trans hc)
  rw [hqa] at habs
  rcases base_turn hs hn ht s.l1d.regs.memReq.addr with
    hb | ⟨-, j, hj, -⟩ | hfl | hrp | ⟨h1, -⟩ | ⟨h1, -⟩
  · exact hb
  · rcases L1d.holds_step hs.act hs.sent hj with hj' | ⟨hfl, -⟩
    · exact absurd hj' (habs j)
    · exact absurd hfl (hs.not_fills_of_accepts ha)
  · exact absurd (hfl.2.2.1.1.symm.trans hc) (by decide)
  · exact absurd (idle_of_accepts ha) (not_idle_of_ack hs hrp.1)
  · have h0 : s.l1dOut = false :=
      (L1d.out_step (hs.l1dStep (i := i)) hs.wf.pipe hs.wf.expects).2 h1
    exact absurd (ho.symm.trans h0) (by decide)
  · exact absurd ((idle_of_accepts ha).symm.trans (probe_of_ack hs h1).2.1) (by decide)

variable (hp : Present g s)

include hp

theorem copy_next (x : LineAddr) (j : Nat) (hj : L1d.Holds g (nextArr g s i) x j)
    (hc : ¬ Condemned (s.next g i) x) : (nextArr g s i j).data = V' x := by
  have hcx : ¬ Condemned s x := by
    intro hcx
    rcases condemned_kept hs hp hcx with h | h
    · exact hc h
    · have hi : s.l2.regs.state ≠ .idle := by
        intro hi
        have hl := hcx.1
        rw [hi] at hl
        cases hl
      exact h j (hp.shrink hs hi hj)
  rw [copy_turn hs hn ht hp x j hj hcx]
  cases hv with
  | write ha hf hca y hy =>
    obtain ⟨-, -, -, -, hqa, -, hqc⟩ := wait_of_accepts hs ha hf
    have hxy : x ≠ y := by
      rintro rfl
      rcases L1d.holds_step hs.act hs.sent hj with hj' | ⟨hfl, -⟩
      · have habs := hu.1.2 ha (hqc.trans hca)
        rw [hqa, hy] at habs
        exact habs j hj'
      · exact hs.not_fills_of_accepts ha hfl
    rw [Function.update_of_ne hxy]
  | drop ha hf ho y hy =>
    obtain ⟨-, -, -, -, hqa, hqo, -⟩ := wait_of_accepts hs ha hf
    have hxy : x ≠ y := by
      rintro rfl
      have h := condemned_of_drop hs ha (hqo.trans ho)
      rw [hqa, hy] at h
      exact hc h
    rw [Function.update_of_ne hxy]
  | discard ha hw y hy =>
    have hxy : x ≠ y := by
      rintro rfl
      have h := condemned_of_snoop hs ha hw
      rw [hy] at h
      exact hc h
    split
    · rfl
    · rw [Function.update_of_ne hxy]
  | _ => rfl

theorem base_next (x : LineAddr) : V' x = M' x ∨ Ahead g (s.next g i) x := by
  have hbt := base_turn hs hn ht x
  have hnr : s.l2.regs.state = .idle → ¬ Reply s x :=
    fun hi hr => not_idle_of_ack hs hr.1 hi
  have hna : ∀ {c : Prop}, accepts s.l2.regs (s.l2Pins g i) = true →
      acceptsSnoop s.l2.regs (s.l2Pins g i) = true → c :=
    fun ha hn => absurd (accepts_not_snoop ha) (by simp [hn])
  cases hv with
  | store ha hf hq =>
    obtain ⟨ho, -, hsd, -, hqa, hqo, -⟩ := wait_of_accepts hs ha hf
    by_cases hx : x = s.l1d.regs.memReq.addr
    · subst hx
      refine .inl ?_
      rw [Function.update_self, ht.frame_of_out ho]
      exact (hn.flight _ ⟨ho, hsd, hq, rfl⟩).symm
    · refine base_kept hs hbt rfl (Function.update_of_ne hx _ _) (fun _ h => ?_)
        (fun h => hna ha h) (fun hfl => absurd hfl.2.2.2.symm hx) (hnr (idle_of_accepts ha))
      rw [hqo] at h
      rcases hq.2 with hop | hop <;> exact absurd (hop.symm.trans h) (by decide)
  | write ha hf hca y hy mask data =>
    obtain ⟨-, -, -, -, -, -, hqc⟩ := wait_of_accepts hs ha hf
    by_cases hx : x = y
    · subst hx
      refine .inl ?_
      have hb := base_bare hs hn ht hu ha hf hca
      rw [hy] at hb
      rw [Function.update_self, Function.update_self, hb]
    · refine base_kept hs hbt (Function.update_of_ne hx _ _) (Function.update_of_ne hx _ _)
        (fun _ h => ?_) (fun h => hna ha h)
        (fun hfl => absurd (hfl.2.2.1.1.symm.trans hca) (by decide)) (hnr (idle_of_accepts ha))
      -- a page drop is cacheable
      have hok : ReqOk (s.l2Req g) := by
        refine hs.wf.reqOk (i := i) ?_
        simp only [accepts, Bool.and_eq_true] at ha
        exact ha.2
      simp [ReqOk, h, hqc, hca] at hok
  | drop ha hf hop y hy =>
    obtain ⟨-, -, -, -, hqa, -, -⟩ := wait_of_accepts hs ha hf
    by_cases hx : x = y
    · subst hx
      refine .inl ?_
      rw [Function.update_self, Function.update_self]
    · refine base_kept hs hbt (Function.update_of_ne hx _ _) (Function.update_of_ne hx _ _)
        (fun _ _ h => hx (h.symm.trans (hqa.trans hy))) (fun h => hna ha h) (fun hfl => ?_)
        (hnr (idle_of_accepts ha))
      rcases hfl.2.2.1.2 with h | h <;> exact absurd (hop.symm.trans h) (by decide)
  | ask ha hq ho =>
    refine base_kept hs hbt rfl rfl (fun _ h => absurd h ho) (fun h => hna ha h) (fun hfl => ?_)
      (hnr (idle_of_accepts ha))
    cases hf : (s.l2Req g).fromD with
    | true => exact absurd hfl.2.2.1 (hq hf)
    | false => rw [Bool.and_false]
  | discard ha hw y hy =>
    by_cases hx : x = y
    · subst hx
      by_cases hfl : Flight (s.next g i) x
      · exact .inr (.inr (.inl hfl))
      · refine .inl ?_
        rw [if_neg hfl, Function.update_self, Function.update_self]
    · refine base_kept hs hbt ?_ (Function.update_of_ne hx _ _) (fun h => hna h ha)
        (fun _ _ h => hx (h.symm.trans hy)) (fun _ => by rw [not_accepts_of_snoop ha]; rfl)
        (hnr (idle_of_snoop ha))
      split
      · rfl
      · exact Function.update_of_ne hx _ _
  | clean ha hw =>
    exact base_kept hs hbt rfl rfl (fun h => hna h ha)
      (fun _ h => absurd (h.symm.trans hw) (by decide))
      (fun _ => by rw [not_accepts_of_snoop ha]; rfl) (hnr (idle_of_snoop ha))
  | land hr =>
    have hi := not_idle_of_ack hs hr.1
    by_cases hx : x = s.l2.regs.probeAddr
    · subst hx
      refine .inl ?_
      rw [Function.update_self, ht.frame_of_absent (hp.absent_of_ack hs hr.1)]
      exact (hn.reply _ hr).symm
    · refine base_kept hs hbt rfl (Function.update_of_ne hx _ _)
        (fun h => absurd (idle_of_accepts h) hi) (fun h => absurd (idle_of_snoop h) hi)
        (fun _ => ?_) fun h => hx h.2.2.2.symm
      cases h : accepts s.l2.regs (s.l2Pins g i)
      · rfl
      · exact absurd (idle_of_accepts h) hi
  | rest ha hsn hr =>
    exact base_kept hs hbt rfl rfl (fun h => absurd h (by simp [ha]))
      (fun h => absurd h (by simp [hsn])) (fun _ => by rw [ha]; rfl) (hr x)

end Next

section Answers

variable (hs : Sound g s) (hp : Present g s) {m : Seen} (hn : Newest g s m)

include hs hn

theorem bare_next (hp : Present g s) (hu : Safe g s i) (hsv : (s.next g i).servesD = true)
    (hc : (s.next g i).l1d.regs.memReq.cacheable = false) :
    Absent g (s.next g i) (s.next g i).l1d.regs.memReq.addr := by
  rw [servesD_next hs, Bool.or_eq_true, Bool.and_eq_true, Bool.and_eq_true, Bool.not_eq_true']
    at hsv
  rcases hsv with ⟨hsd, hr⟩ | ⟨ha, hf⟩
  · have hmr := hs.memReq_held (hs.out_of_servesD hsd) (i := i)
    rw [hmr] at hc ⊢
    exact hp.absent_next hs (not_idle_of_servesD hsd hr) (hn.bare hsd hc)
  · obtain ⟨-, -, -, hmr, hqa, -, hqc⟩ := wait_of_accepts hs ha hf
    rw [hmr] at hc ⊢
    have habs := hu.1.2 ha (hqc.trans hc)
    rw [hqa] at habs
    intro j hj
    rcases L1d.holds_step hs.act hs.sent hj with hj | ⟨hfl, -⟩
    · exact habs j hj
    · exact hs.not_fills_of_accepts ha hfl

theorem answer_next (hp : Present g s) (hu : Safe g s i) (hr : (s.next g i).l1dRsp = true)
    (ho : (s.next g i).l1d.regs.memReq.opcode = .lw) :
    (s.next g i).l2.regs.rspData =
      (seenNext g s i m).below (s.next g i).l1d.regs.memReq.addr := by
  rw [(wf_next hs.wf).route.1, Bool.and_eq_true] at hr
  have hsv : (s.next g i).served = true := by simp [served, hr.1]
  have hl := hp.link_next hs hu.1.1 hsv hr.2
  rw [← hl.addr]
  exact L2View.rspData_step (hs.l2Step (i := i)) hs.wf.ctl hn.mem (fun _ _ _ => rfl) hr.1
    (hl.opcode.trans ho)

/-- The L1I's request stays in its registers while it is granted. -/
theorem fetch_next (hsv : (s.next g i).served = true) (hf : (s.next g i).l2.regs.fromD = false) :
    (s.next g i).l2.regs.opcode = .lw ∧ (s.next g i).l2.regs.saveaddr = (s.next g i).l1i.addr := by
  have hstep := hs.l2Step (i := i)
  have hheld : s.arb.state = .gntL1i → (s.next g i).l1i.addr = s.l1i.addr := by
    intro ha
    have hw : s.l1i.waiting = true := by rw [hs.wf.bus.outI, ha]; simp
    change (s.l1i.next i.l1iMiss i.l1iAddr i.l1iCacheable s.l1iRsp).addr = _
    rw [L1iPort.next, if_pos hw]
  cases ha : accepts s.l2.regs (s.l2Pins g i) with
  | true =>
    have hnew := L2View.accepted_step hstep ha
    have hfd : (s.l2Req g).fromD = false := hnew.fromD.symm.trans hf
    rw [l2Req_fromD, Bool.not_eq_false', beq_iff_eq] at hfd
    have h1 : (s.next g i).l2.regs.opcode = (s.l2Req g).opcode := hnew.opcode
    have h2 : (s.next g i).l2.regs.saveaddr = (s.l2Req g).addr := hnew.saveaddr
    rw [h1, h2, hheld hfd, l2Req, if_pos hfd]
    exact ⟨rfl, rfl⟩
  | false =>
    rw [hs.wf.served_next, ha, Bool.or_false, Bool.and_eq_true, Bool.not_eq_true'] at hsv
    have hi : s.l2.view.regs.state ≠ .idle := by
      intro hi
      have hi' : s.l2.regs.state = .idle := hi
      have ho : L2View.owes s.l2.regs = true := by simpa [served, hsv.2] using hsv.1
      simp [L2View.owes, hi'] at ho
    have hsame := L2View.sameReq_step hstep hi
    have hfd : s.l2.regs.fromD = false := hsame.fromD.symm.trans hf
    obtain ⟨h1, h2⟩ := hn.fetch hsv.1 hfd
    have hg : s.arb.state = .gntL1i := by
      have hb := hs.wf.bus.fromD hsv.1
      cases hst : s.arb.state with
      | idle => exact absurd (hs.wf.bus.idle hst).2 (by simp [hsv.1])
      | gntL1d => simp [hst, hfd] at hb
      | gntL1i => rfl
    rw [hheld hg]
    exact ⟨hsame.opcode.trans h1, hsame.saveaddr.trans h2⟩

theorem fetched_next (hr : (s.next g i).l1iRsp = true) :
    (s.next g i).l2.regs.rspData = (seenNext g s i m).below (s.next g i).l1i.addr := by
  rw [(wf_next hs.wf).route.2, Bool.and_eq_true, Bool.not_eq_true'] at hr
  have hsv : (s.next g i).served = true := by simp [served, hr.1]
  obtain ⟨h1, h2⟩ := fetch_next hs hn hsv hr.2
  rw [← h2]
  exact L2View.rspData_step (hs.l2Step (i := i)) hs.wf.ctl hn.mem (fun _ _ _ => rfl) hr.1 h1

end Answers

/-- A clock edge that is safe keeps the newest values where they are looked for. -/
theorem newest_next (hs : Sound g s) (hp : Present g s) {m : Seen} (hn : Newest g s m)
    (hu : Safe g s i) : Newest g (s.next g i) (seenNext g s i m) := by
  have ht := turn (i := i) hs m.below m.cpu
  have hv := serve (i := i) hs hu.1.1 m.below ((l1dChange g s i m.below).apply m.cpu)
  exact
    { mem := L2View.memInv_step (hs.l2Step (i := i)) hs.wf.ctl hn.mem hs.wf.reqOk
        (fun _ _ _ => rfl)
      copy := copy_next hs hn ht hv hu hp
      flight := flight_value hs hn ht hv
      reply := reply_value hs hn ht hv hu
      base := base_next hs hn ht hv hu hp
      landed := landed_next hs hn ht hv
      answer := answer_next hs hn hp hu
      bare := bare_next hs hn hp hu
      fetch := fetch_next hs hn
      fetched := fetched_next hs hn }

/-- At reset both memories are DRAM. -/
theorem newest_reset (c : Contents) : Newest g (reset c false) ⟨c.dram, c.dram⟩ where
  mem := by
    refine ⟨rfl, fun j h0 hle => ?_⟩
    exact absurd (Nat.lt_of_lt_of_le h0 hle) (Nat.lt_irrefl 0)
  copy _ _ h := absurd h.1 Bool.false_ne_true
  flight _ h := absurd h.1 Bool.false_ne_true
  reply _ h := absurd h.1 Bool.false_ne_true
  base _ := .inl rfl
  landed h := absurd h Bool.false_ne_true
  answer h := absurd h Bool.false_ne_true
  bare h := absurd h Bool.false_ne_true
  fetch h := absurd h Bool.false_ne_true
  fetched h := absurd h Bool.false_ne_true

/-! ## Runs -/

/-- The two memories after a run. -/
def seenRun (g : Geometry) : Hier → Seen → List Stim → Seen
  | _, m, [] => m
  | s, m, i :: is => seenRun g (s.next g i) (seenNext g s i m) is

theorem newest_run {m : Seen} {is : List Stim} (h : Hw.RunOk (next g) (Safe g) s is)
    (hs : Sound g s) (hp : Present g s) (hn : Newest g s m) :
    Sound g (s.run g is) ∧ Present g (s.run g is) ∧ Newest g (s.run g is) (seenRun g s m is) := by
  induction is generalizing s m with
  | nil => exact ⟨hs, hp, hn⟩
  | cons i is ih =>
    exact ih h.2 (sound_next hs) (present_next hs hp h.1.1) (newest_next hs hp hn h.1)

section Reads

variable (hs : Sound g s) (hp : Present g s) {m : Seen} (hn : Newest g s m)

include hs hn

/-- Port 1 answers a hit with the line the processor sees. -/
theorem tData_of_hit (hg : s.l1d.regs.gotReq = true)
    (ht : L1d.tagHit s.l1d.regs s.l1d.out = true) (hc : ¬ Condemned s s.l1d.regs.req.line) :
    L1d.tData s.l1d.regs s.l1d.out (s.l1dPins i) = m.cpu s.l1d.regs.req.line := by
  have hst := (hs.wf.pipe.got hg).1
  have hr : (s.l1dPins i).memRspValid = false := by
    cases hr : (s.l1dPins i).memRspValid
    · rfl
    · rcases hs.wf.expects hr with h | h
      · rw [hst] at h
        cases h
      · exact absurd (hst.symm.trans h.1) (by decide)
  rw [L1d.tData_active hs.wf.pipe hst hr, (hs.wf.pipe.got hg).2.1]
  rw [L1d.tagHit_eq_hits hs.wf.pipe hg] at ht
  exact hn.copy _ _ ((L1d.hits_iff hs.wf.pipe hg).mp ht) hc

/-- Port 2 reads the line the processor sees, unless port 1 has just written a line. -/
theorem out2_of_hit (hg : s.l1d.regs.gotReq2 = true) (hst : s.l1d.regs.state = .active)
    (hw : s.l1d.regs.rrLastWr = false) (ht : L1d.port2Hit s.l1d (s.l1dPins i) = true)
    (hc : ¬ Condemned s (L1d.remappedReq2 g s.l1d (s.l1dPins i)).line) :
    s.l1d.out2.data = m.cpu (L1d.remappedReq2 g s.l1d (s.l1dPins i)).line := by
  have ho := hs.wf.pipe.fresh2 hg hst hw
  have hidx := (hs.wf.pipe.got2 hg).2
  rw [L1d.port2Hit, Bool.and_eq_true, beq_iff_eq, ho] at ht
  rw [ho]
  refine hn.copy _ _ ⟨ht.1, ?_, ?_, ?_⟩ hc
  · exact ht.2.trans (g.l1Tag_remap _ _).symm
  · change s.l1d.regs.cacheIdx2 % g.pgLines =
      ((s.l1dPins i).tlbPpn * g.pgLines + s.l1d.regs.req2.line % g.pgLines) % g.pgLines
    rw [hidx, g.l1Idx_mod, Nat.mul_comm, Nat.mul_add_mod, Nat.mod_mod]
  · rw [hidx]
    exact g.l1Idx_lt _

include hp

/-- The L2 answers a load of the L1D with the line the processor sees. -/
theorem cpu_of_rsp (hr : s.l1dRsp = true) (ho : s.l1d.regs.memReq.opcode = .lw) :
    s.l2.regs.rspData = m.cpu s.l1d.regs.memReq.addr := by
  have hsv := hs.servesD_of_rsp hr
  cases hc : s.l1d.regs.memReq.cacheable with
  | false => exact cpu_of_absent hs hn hr ho (hn.bare hsv hc)
  | true =>
    -- the L1D is not in the middle of a probe
    have hck : s.l1d.regs.state ≠ .probeChk := by
      intro hck
      rw [hs.wf.route.1, Bool.and_eq_true] at hr
      exact absurd ⟨hr.1, (hs.wf.probing.chk hck).1⟩ hs.wf.quiet.1
    have hb := L1d.behind_of_load hs.sent (hs.out_of_servesD hsv) ho hc
    rw [L1d.Proto.behind_of_ne (p := s.l1d.regs.proto) hck] at hb
    have hi : s.l1d.regs.state = .injectReload := hb
    exact cpu_of_fill hs hp hn hi hr ho

end Reads

end Hier

end R9999
