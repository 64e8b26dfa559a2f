import R9999.Hierarchy.Model
import R9999.L1d.Request
import R9999.L2.Handshake

/-!
# The handshakes between the L1 caches and the L2

`Bus` says who waits for what: an L1 that waits for a reply has its request in exactly one
place (the pulse on its way to the arbiter, the arbiter's latch, or the grant), the L2
serves only the granted L1, and an idle arbiter has nothing in service.  `Probing` follows
a probe from the L2 to the L1D and back.  `Wf` collects them with the facts about the
single caches; `wf_next` says that every clock edge keeps them, whatever the core, the
snoops, the DMA engine and the memory do.
-/

namespace R9999

open L2View (owes accepts snooping acceptsSnoop)

namespace Hier

variable {g : Geometry} {s : Hier} {i : Stim}

/-- The L2 is serving an L1 request or answering it. -/
def served (s : Hier) : Bool := owes s.l2.regs || s.l2.regs.rspValid

/-- The L1D waits for a reply. -/
def l1dOut (s : Hier) : Bool := s.l1d.regs.proto.out

/-- The requests of the L1 caches are each in one place. -/
structure Bus (s : Hier) : Prop where
  /-- The L1D's request is on its way to the arbiter, latched, or granted. -/
  outD : s.l1dOut = (s.l1d.regs.memReqValid || s.arb.l1dReq || s.arb.state == .gntL1d)
  pulseD : s.l1d.regs.memReqValid = true → s.arb.l1dReq = false ∧ s.arb.state ≠ .gntL1d
  outI : s.l1i.waiting = (s.l1i.memReqValid || s.arb.l1iReq || s.arb.state == .gntL1i)
  pulseI : s.l1i.memReqValid = true → s.arb.l1iReq = false ∧ s.arb.state ≠ .gntL1i
  /-- An idle arbiter holds no request, and the L2 serves none. -/
  idle : s.arb.state = .idle → s.arb.req = false ∧ s.served = false
  /-- A granted request is presented or in service. -/
  granted : s.arb.state ≠ .idle → s.arb.req = true ∨ s.served = true
  /-- It is presented until the L2 acknowledges it. -/
  presented : s.arb.req = true → s.served = s.l2.regs.reqAck
  acked : s.l2.regs.reqAck = true → s.arb.req = true
  /-- The L2 knows which L1 it serves. -/
  fromD : s.served = true → s.l2.regs.fromD = (s.arb.state == .gntL1d)
  okD : s.l1dOut = true → s.l1d.regs.memReq.Ok

/-- The probe handshake: the L2 holds the probe until the acknowledge, the L1D answers it
once. -/
structure Probing (g : Geometry) (s : Hier) : Prop where
  chk : s.l1d.regs.state = .probeChk → s.l2.regs.probeReq = true ∧ s.l1d.regs.prbSeen = false ∧
    s.l1d.regs.prbTag = g.l1Tag s.l2.regs.probeAddr ∧
    s.l1d.regs.cacheIdx = g.l1Set s.l2.regs.probeAddr s.l2.regs.probeColour
  ack : s.l1d.regs.prbAck = true → s.l2.regs.probeReq = true ∧ s.l1d.regs.prbSeen = true ∧
    s.l1d.regs.state ≠ .probeChk
  seen : s.l1d.regs.prbSeen = true → s.l1d.regs.prbAck = true ∨
    s.l2.regs.probeReq = false ∧ s.l2.regs.state = .checkValidAndTag ∧ s.l2.regs.probed = true

/-- The caches and the wires between them are in order. -/
structure Wf (g : Geometry) (s : Hier) : Prop where
  settled : s.l2.Settled
  ctl : L2View.Ctl g s.l2.view
  pulses : L2View.Pulses g s.l2.view
  pipe : L1d.Pipe g s.l1d
  bus : Bus s
  probing : Probing g s

/-! ## One clock edge of each part -/

section Parts

theorem l2_step (h : s.l2.Settled) :
    L2View.Step g s.l2.view (s.l2Pins g i) (s.next g i).l2.view := by
  have hn : (s.next g i).l2.view = s.l2.view.next g (s.l2Pins g i) := h.view_next
  rw [hn]
  exact L2View.step_next g _ _

/-- A reply reaches the L1D only when it expects one. -/
theorem Wf.expects (h : Wf g s) (hr : (s.l1dPins i).memRspValid = true) :
    L1d.Expects s.l1d.regs := by
  have hr' : s.l1dRsp = true := hr
  simp only [l1dRsp, Bool.and_eq_true, beq_iff_eq] at hr'
  have ho : s.l1d.regs.proto.out = true := by
    have := h.bus.outD
    rw [hr'.1, l1dOut] at this
    simpa using this
  have hp : s.l2.regs.probeReq = false := by
    cases hq : s.l2.regs.probeReq
    · rfl
    · have h1 := (h.pulses.probe hq).1
      rcases h.pulses.rsp hr'.2 with h2 | h2
      · exact absurd (h1.symm.trans h2) (by decide)
      · exact absurd (h1.symm.trans h2) (by decide)
  have hn : s.l1d.regs.state ≠ .probeChk := by
    intro hc
    exact absurd (h.probing.chk hc).1 (by simp [hp])
  have hb : s.l1d.regs.proto.behind = s.l1d.regs.state :=
    L1d.Proto.behind_of_ne (p := s.l1d.regs.proto) hn
  rw [L1d.Proto.out, hb] at ho
  simp only [Bool.or_eq_true, Bool.and_eq_true, decide_eq_true_eq] at ho
  exact ho

theorem l1d_step (h : Wf g s) :
    L1d.Step g s.l1d (s.l1dPins i) (s.next g i).l1d.regs.proto (s.next g i).l1d.arr :=
  L1d.step_next h.pipe h.expects

/-- The request the L2 sees is one it can serve. -/
theorem Wf.reqOk (h : Wf g s) (hv : (s.l2Pins g i).reqValid = true) :
    ReqOk (s.l2Pins g i).req := by
  change ReqOk (s.l2Req g)
  by_cases hi : s.arb.state = .gntL1i
  · simp [l2Req, hi, ReqOk]
  · have ho : s.l1dOut = true := by
      have hv' : (s.arb.req || s.passthru) = true := hv
      rw [h.bus.outD]
      cases hs : s.arb.state with
      | gntL1d => simp
      | gntL1i => exact absurd hs hi
      | idle =>
        rw [(h.bus.idle hs).1, Bool.false_or] at hv'
        simp only [passthru, Arbiter.passthru, hs, Arbiter.grant] at hv'
        revert hv'
        cases s.l1d.regs.memReqValid <;> cases s.arb.l1dReq <;> cases s.arb.l1iReq <;>
          cases s.l1i.memReqValid <;> simp
    rw [l2Req, if_neg hi]
    exact h.bus.okD ho

/-- The L2 accepts a request only when it serves none. -/
theorem Wf.served_of_accepts (h : Wf g s)
    (ha : accepts s.l2.regs (s.l2Pins g i) = true) : s.served = false := by
  simp only [accepts, Bool.and_eq_true, decide_eq_true_eq] at ha
  have hv : (s.arb.req || s.passthru) = true := ha.2
  cases hr : s.arb.req with
  | true =>
    rw [h.bus.presented hr]
    cases hk : s.l2.regs.reqAck
    · rfl
    · have hw : s.l2.regs.state = .waitForRam := h.pulses.ack hk
      exact absurd (hw.symm.trans ha.1.1.1) (by decide)
  | false =>
    rw [hr, Bool.false_or] at hv
    simp only [passthru, Arbiter.passthru, Bool.and_eq_true, beq_iff_eq] at hv
    exact (h.bus.idle hv.1).2

/-- What the L2 serves after the edge. -/
theorem Wf.served_next (h : Wf g s) :
    (s.next g i).served =
      ((s.served && !s.l2.regs.rspValid) || accepts s.l2.regs (s.l2Pins g i)) := by
  have hc := L2View.owes_step (l2_step h.settled (i := i)) h.ctl h.reqOk
  have ha : accepts s.l2.regs (s.l2Pins g i) = true → s.served = false := h.served_of_accepts
  have ho : s.l2.regs.rspValid = true → owes s.l2.regs = false := h.pulses.rspOwes
  simp only [served] at ha ⊢
  change (owes (s.next g i).l2.regs).toNat + (s.next g i).l2.regs.rspValid.toNat =
    (owes s.l2.regs).toNat + (accepts s.l2.regs (s.l2Pins g i)).toNat at hc
  revert hc ha ho
  cases owes (s.next g i).l2.regs <;> cases (s.next g i).l2.regs.rspValid <;>
    cases owes s.l2.regs <;> cases s.l2.regs.rspValid <;>
    cases accepts s.l2.regs (s.l2Pins g i) <;> simp

/-- The arbiter presents a request that the L2 accepts. -/
theorem Wf.arb_of_accepts (h : Wf g s) (ha : accepts s.l2.regs (s.l2Pins g i) = true) :
    s.arb.req = true ∧ s.arb.state ≠ .idle ∨
      s.arb.state = .idle ∧ s.arb.grant s.l1d.regs.memReqValid s.l1i.memReqValid = .gntL1d := by
  simp only [accepts, Bool.and_eq_true] at ha
  have hv : (s.arb.req || s.passthru) = true := ha.2
  by_cases hs : s.arb.state = .idle
  · rw [(h.bus.idle hs).1, Bool.false_or] at hv
    simp only [passthru, Arbiter.passthru, Bool.and_eq_true, beq_iff_eq] at hv
    exact .inr hv
  · have hp : s.passthru = false := by simp [passthru, Arbiter.passthru, hs]
    rw [hp, Bool.or_false] at hv
    exact .inl ⟨hv, hs⟩

end Parts

/-! ## The bus -/

section BusNext

/-- The arbiter's next state, from the grant it has. -/
theorem arb_next_idle (hs : s.arb.state = .idle) :
    (s.next g i).arb =
      { s.arb with
        state := s.arb.grant s.l1d.regs.memReqValid s.l1i.memReqValid
        l1dReq := s.arb.l1dReq || s.l1d.regs.memReqValid
        l1iReq := s.arb.l1iReq || s.l1i.memReqValid
        req := s.arb.req || s.arb.grant s.l1d.regs.memReqValid s.l1i.memReqValid != .idle } := by
  simp only [next, Arbiter.next, hs]

theorem arb_next_gntL1d (hs : s.arb.state = .gntL1d) :
    (s.next g i).arb =
      { state := if s.l2.regs.rspValid then .idle else .gntL1d
        lastGnt := false, l1dReq := false, l1iReq := s.arb.l1iReq || s.l1i.memReqValid
        req := s.arb.req && !s.l2.regs.reqAck && !s.l2.regs.rspValid } := by
  simp only [next, Arbiter.next, hs]

theorem arb_next_gntL1i (hs : s.arb.state = .gntL1i) :
    (s.next g i).arb =
      { state := if s.l2.regs.rspValid then .idle else .gntL1i
        lastGnt := true, l1dReq := s.arb.l1dReq || s.l1d.regs.memReqValid, l1iReq := false
        req := s.arb.req && !s.l2.regs.reqAck && !s.l2.regs.rspValid } := by
  simp only [next, Arbiter.next, hs]

theorem grant_gntL1d {a : Arbiter} {d j : Bool} (h : a.grant d j = .gntL1d) :
    (a.l1dReq || d) = true := by
  unfold Arbiter.grant at h
  cases hd : (a.l1dReq || d)
  · rw [hd] at h
    cases hj : (a.l1iReq || j) <;> simp [hj] at h
  · rfl

theorem grant_gntL1i {a : Arbiter} {d j : Bool} (h : a.grant d j = .gntL1i) :
    (a.l1iReq || j) = true := by
  unfold Arbiter.grant at h
  cases hj : (a.l1iReq || j)
  · rw [hj] at h
    cases hd : (a.l1dReq || d) <;> simp [hd] at h
  · rfl

/-- The L1D's side of the bus. -/
theorem Wf.outD_next (h : Wf g s) :
    (s.next g i).l1dOut = ((s.next g i).l1d.regs.memReqValid || (s.next g i).arb.l1dReq ||
        (s.next g i).arb.state == .gntL1d) ∧
      ((s.next g i).l1d.regs.memReqValid = true →
        (s.next g i).arb.l1dReq = false ∧ (s.next g i).arb.state ≠ .gntL1d) := by
  obtain ⟨hout, hnew⟩ := L1d.out_step (l1d_step h (i := i)) h.pipe h.expects
  have hold := h.bus.outD
  have hnew' : (s.next g i).l1d.regs.memReqValid = true → s.l1dOut = false := hnew
  have hout' : (s.next g i).l1dOut =
      ((s.l1dOut && !s.l1dRsp) || (s.next g i).l1d.regs.memReqValid) := hout
  rw [hout']
  cases hs : s.arb.state with
  | idle =>
    have hr : s.l1dRsp = false := by simp [l1dRsp, hs]
    have hg := fun h => grant_gntL1d (a := s.arb) (d := s.l1d.regs.memReqValid)
      (j := s.l1i.memReqValid) h
    rw [hs] at hold
    rw [arb_next_idle hs, hr]
    revert hold hg hnew'
    cases hgr : s.arb.grant s.l1d.regs.memReqValid s.l1i.memReqValid <;>
      cases s.arb.l1dReq <;> cases s.l1d.regs.memReqValid <;>
      cases (s.next g i).l1d.regs.memReqValid <;> simp
    grind
  | gntL1d =>
    have hr : s.l1dRsp = s.l2.regs.rspValid := by simp [l1dRsp, hs]
    rw [hs] at hold
    rw [arb_next_gntL1d hs, hr]
    revert hold hnew'
    cases s.l2.regs.rspValid <;> cases s.arb.l1dReq <;> cases s.l1d.regs.memReqValid <;>
      cases (s.next g i).l1d.regs.memReqValid <;> simp
  | gntL1i =>
    have hr : s.l1dRsp = false := by simp [l1dRsp, hs]
    rw [hs] at hold
    rw [arb_next_gntL1i hs, hr]
    revert hold hnew'
    cases s.l2.regs.rspValid <;> cases s.arb.l1dReq <;> cases s.l1d.regs.memReqValid <;>
      cases (s.next g i).l1d.regs.memReqValid <;> simp
    exact id

/-- The L1I's side of the bus. -/
theorem Wf.outI_next (h : Wf g s) :
    (s.next g i).l1i.waiting = ((s.next g i).l1i.memReqValid || (s.next g i).arb.l1iReq ||
        (s.next g i).arb.state == .gntL1i) ∧
      ((s.next g i).l1i.memReqValid = true →
        (s.next g i).arb.l1iReq = false ∧ (s.next g i).arb.state ≠ .gntL1i) := by
  have hnew : (s.next g i).l1i.memReqValid = true → s.l1i.waiting = false := by
    simp only [next, L1iPort.next]
    cases s.l1i.waiting <;> simp
  have hout : (s.next g i).l1i.waiting =
      ((s.l1i.waiting && !s.l1iRsp) || (s.next g i).l1i.memReqValid) := by
    simp only [next, L1iPort.next]
    cases s.l1i.waiting <;> cases i.l1iMiss <;> simp
  have hold := h.bus.outI
  rw [hout]
  cases hs : s.arb.state with
  | idle =>
    have hr : s.l1iRsp = false := by simp [l1iRsp, hs]
    have hg := fun h => grant_gntL1i (a := s.arb) (d := s.l1d.regs.memReqValid)
      (j := s.l1i.memReqValid) h
    rw [hs] at hold
    rw [arb_next_idle hs, hr]
    revert hold hg hnew
    cases hgr : s.arb.grant s.l1d.regs.memReqValid s.l1i.memReqValid <;>
      cases s.arb.l1iReq <;> cases s.l1i.memReqValid <;>
      cases (s.next g i).l1i.memReqValid <;> simp
    grind
  | gntL1d =>
    have hr : s.l1iRsp = false := by simp [l1iRsp, hs]
    rw [hs] at hold
    rw [arb_next_gntL1d hs, hr]
    revert hold hnew
    cases s.l2.regs.rspValid <;> cases s.arb.l1iReq <;> cases s.l1i.memReqValid <;>
      cases (s.next g i).l1i.memReqValid <;> simp
    exact id
  | gntL1i =>
    have hr : s.l1iRsp = s.l2.regs.rspValid := by simp [l1iRsp, hs]
    rw [hs] at hold
    rw [arb_next_gntL1i hs, hr]
    revert hold hnew
    cases s.l2.regs.rspValid <;> cases s.arb.l1iReq <;> cases s.l1i.memReqValid <;>
      cases (s.next g i).l1i.memReqValid <;> simp

theorem Wf.reqAck_next (h : Wf g s) :
    (s.next g i).l2.regs.reqAck = accepts s.l2.regs (s.l2Pins g i) :=
  L2View.reqAck_step (l2_step h.settled)

/-- The arbiter's request register, and what the L2 serves. -/
theorem Wf.granted_next (h : Wf g s) :
    ((s.next g i).arb.state = .idle →
        (s.next g i).arb.req = false ∧ (s.next g i).served = false) ∧
      ((s.next g i).arb.state ≠ .idle →
        (s.next g i).arb.req = true ∨ (s.next g i).served = true) ∧
      ((s.next g i).arb.req = true → (s.next g i).served = (s.next g i).l2.regs.reqAck) ∧
      ((s.next g i).l2.regs.reqAck = true → (s.next g i).arb.req = true) := by
  have hacc := h.served_of_accepts (i := i)
  have harb := h.arb_of_accepts (i := i)
  have hack : s.l2.regs.reqAck = true → accepts s.l2.regs (s.l2Pins g i) = false := by
    intro hk
    have hw : s.l2.regs.state = .waitForRam := h.pulses.ack hk
    simp [accepts, hw]
  have hrsp : s.l2.regs.rspValid = true → s.served = true := by
    intro hr
    simp [served, hr]
  rw [h.served_next, h.reqAck_next]
  cases hs : s.arb.state with
  | idle =>
    obtain ⟨hr, hsv⟩ := h.bus.idle hs
    rw [arb_next_idle hs, hr, hsv]
    rw [hs] at harb
    revert harb
    cases hgr : s.arb.grant s.l1d.regs.memReqValid s.l1i.memReqValid <;>
      cases accepts s.l2.regs (s.l2Pins g i) <;> simp
  | gntL1d =>
    have hgr := h.bus.granted (by simp [hs])
    have hpr := h.bus.presented
    rw [arb_next_gntL1d hs]
    rw [hs] at harb
    revert hgr hpr harb hacc hack hrsp
    cases s.served <;> cases s.arb.req <;> cases s.l2.regs.rspValid <;>
      cases s.l2.regs.reqAck <;> cases accepts s.l2.regs (s.l2Pins g i) <;> simp
  | gntL1i =>
    have hgr := h.bus.granted (by simp [hs])
    have hpr := h.bus.presented
    rw [arb_next_gntL1i hs]
    rw [hs] at harb
    revert hgr hpr harb hacc hack hrsp
    cases s.served <;> cases s.arb.req <;> cases s.l2.regs.rspValid <;>
      cases s.l2.regs.reqAck <;> cases accepts s.l2.regs (s.l2Pins g i) <;> simp

/-- The request mux selects the L1I exactly while it is granted. -/
theorem l2Req_fromD : (s.l2Req g).fromD = !(s.arb.state == .gntL1i) := by
  by_cases hi : s.arb.state = .gntL1i
  · simp [l2Req, hi]
  · simp [l2Req, hi]

theorem Wf.fromD_next (h : Wf g s) (hsv : (s.next g i).served = true) :
    (s.next g i).l2.regs.fromD = ((s.next g i).arb.state == .gntL1d) := by
  have hstep := l2_step (g := g) h.settled (i := i)
  rw [h.served_next, Bool.or_eq_true, Bool.and_eq_true, Bool.not_eq_true'] at hsv
  rcases hsv with ⟨hsv, hr⟩ | hacc
  · have ho : owes s.l2.regs = true := by simpa [served, hr] using hsv
    have hn : s.l2.regs.state ≠ .idle := by
      intro hi
      simp [owes, hi] at ho
    have hf : (s.next g i).l2.regs.fromD = s.l2.regs.fromD := (L2View.sameReq_step hstep hn).fromD
    rw [hf, h.bus.fromD hsv]
    cases hs : s.arb.state with
    | idle => exact absurd hsv (by simp [(h.bus.idle hs).2])
    | gntL1d => rw [arb_next_gntL1d hs, hr]; rfl
    | gntL1i => rw [arb_next_gntL1i hs, hr]; rfl
  · have hf : (s.next g i).l2.regs.fromD = (s.l2Req g).fromD :=
      (L2View.accepted_step hstep hacc).fromD
    have hr : s.l2.regs.rspValid = false := by
      have := h.served_of_accepts hacc
      simp only [served, Bool.or_eq_false_iff] at this
      exact this.2
    rw [hf, l2Req_fromD]
    rcases h.arb_of_accepts hacc with ⟨-, hs⟩ | ⟨hs, hg⟩
    · cases hs' : s.arb.state with
      | idle => exact absurd hs' hs
      | gntL1d => rw [arb_next_gntL1d hs', hr]; rfl
      | gntL1i => rw [arb_next_gntL1i hs', hr]; rfl
    · rw [arb_next_idle hs, hg, hs]
      rfl

theorem Wf.bus_next (h : Wf g s) : Bus (s.next g i) where
  outD := h.outD_next.1
  pulseD := h.outD_next.2
  outI := h.outI_next.1
  pulseI := h.outI_next.2
  idle := h.granted_next.1
  granted := h.granted_next.2.1
  presented := h.granted_next.2.2.1
  acked := h.granted_next.2.2.2
  fromD := h.fromD_next
  okD ho := by
    have hstep := l1d_step h (i := i)
    obtain ⟨hout, -⟩ := L1d.out_step hstep h.pipe h.expects
    have ho' : (s.next g i).l1d.regs.proto.out = true := ho
    rw [hout, Bool.or_eq_true, Bool.and_eq_true] at ho'
    rcases ho' with ⟨ho', -⟩ | hv
    · have hq : (s.next g i).l1d.regs.memReq = s.l1d.regs.memReq := L1d.memReq_step hstep ho'
      rw [hq]
      exact h.bus.okD ho'
    · exact L1d.memReq_ok hstep hv

end BusNext

/-! ## The probes -/

/-- The L2 holds a probe that is not acknowledged. -/
theorem Wf.probe_held (h : Wf g s) (hr : s.l2.regs.probeReq = true)
    (ha : s.l1d.regs.prbAck = false) :
    (s.next g i).l2.regs.probeReq = true ∧
      (s.next g i).l2.regs.probeAddr = s.l2.regs.probeAddr ∧
      (s.next g i).l2.regs.probeColour = s.l2.regs.probeColour := by
  obtain ⟨hs, hn, ha', hc⟩ := h.pulses.probe hr
  have hv : ∀ v', L2View.Step g s.l2.view (s.l2Pins g i) v' → v'.regs.probeReq = true ∧
      v'.regs.probeAddr = s.l2.regs.probeAddr ∧ v'.regs.probeColour = s.l2.regs.probeColour := by
    intro v' hv
    rcases L2View.probe_step hv hs hn with ⟨-, rfl⟩ | ⟨hk, -⟩
    · exact ⟨rfl, ha'.symm, hc.symm⟩
    · have hk' : (s.l2.regs.probeReq && s.l1d.regs.prbAck) = true := hk
      simp [ha] at hk'
  exact hv _ (l2_step h.settled)

/-- An acknowledged probe is over. -/
theorem Wf.probe_acked (h : Wf g s) (hr : s.l2.regs.probeReq = true)
    (ha : s.l1d.regs.prbAck = true) :
    (s.next g i).l2.regs.probeReq = false ∧
      (s.next g i).l2.regs.state = .checkValidAndTag ∧ (s.next g i).l2.regs.probed = true := by
  obtain ⟨hs, hn, -⟩ := h.pulses.probe hr
  have hv : ∀ v', L2View.Step g s.l2.view (s.l2Pins g i) v' → v'.regs.probeReq = false ∧
      v'.regs.state = .checkValidAndTag ∧ v'.regs.probed = true := by
    intro v' hv
    rcases L2View.probe_step hv hs hn with ⟨hk, -⟩ | ⟨-, rfl⟩
    · have hk' : (s.l2.regs.probeReq && s.l1d.regs.prbAck) = false := hk
      simp [hr, ha] at hk'
    · exact ⟨rfl, hs, rfl⟩
  exact hv _ (l2_step h.settled)

theorem Wf.probing_next (h : Wf g s) : Probing g (s.next g i) := by
  have hl1 := l1d_step h (i := i)
  have hack : s.l1d.regs.prbAck = true → s.l2.regs.probeReq = true ∧ s.l1d.regs.prbSeen = true ∧
      s.l1d.regs.state ≠ .probeChk := h.probing.ack
  by_cases hc : s.l1d.regs.state = .probeChk
  · -- the answer to a probe
    obtain ⟨hr, hseen, -⟩ := h.probing.chk hc
    obtain ⟨h1, h2, h3⟩ := L1d.probeChk_step hl1 h.pipe hc
    have ha : s.l1d.regs.prbAck = false := by
      cases hk : s.l1d.regs.prbAck
      · rfl
      · exact absurd hc (hack hk).2.2
    obtain ⟨hr', -, -⟩ := h.probe_held hr ha (i := i)
    exact
      { chk := fun h' => absurd h' h3
        ack := fun _ => ⟨hr', h2, h3⟩
        seen := fun _ => .inl h1 }
  · obtain ⟨h1, h2, h3⟩ := L1d.takeProbe_step hl1 hc
    have h1' : (s.next g i).l1d.regs.prbAck = false := h1
    have h2' : (s.next g i).l1d.regs.prbSeen = (s.l1d.regs.prbSeen && s.l2.regs.probeReq) := h2
    refine ⟨fun h' => ?_, fun h' => absurd h' (by simp [h1']), fun h' => ?_⟩
    · obtain ⟨hp', ht, hx⟩ := h3 h'
      have hp'' : (s.l2.regs.probeReq && !s.l1d.regs.prbSeen) = true := hp'
      simp only [Bool.and_eq_true, Bool.not_eq_true'] at hp''
      have ha : s.l1d.regs.prbAck = false := by
        cases hk : s.l1d.regs.prbAck
        · rfl
        · exact absurd (hack hk).2.1 (by simp [hp''.2])
      obtain ⟨hr', hpa, hpc⟩ := h.probe_held hp''.1 ha (i := i)
      refine ⟨hr', by rw [h2', hp''.2]; rfl, ?_, ?_⟩
      · rw [hpa]
        exact ht
      · rw [hpa, hpc]
        exact hx
    · rw [h2', Bool.and_eq_true] at h'
      rcases h.probing.seen h'.1 with hk | ⟨hk, -⟩
      · exact .inr (h.probe_acked h'.2 hk)
      · exact absurd h'.2 (by simp [hk])

/-- Every clock edge keeps the caches and the wires in order. -/
theorem wf_next (h : Wf g s) : Wf g (s.next g i) where
  settled := L2.settled_next h.settled
  ctl := L2View.ctl_step (l2_step h.settled) h.ctl h.reqOk
  pulses := L2View.pulses_step (l2_step h.settled) h.ctl h.pulses h.reqOk
  pipe := L1d.pipe_next h.pipe i.reqOk h.expects
  bus := h.bus_next
  probing := h.probing_next

/-- Reset puts them in order. -/
theorem wf_reset (c : Contents) (nocache : Bool) : Wf g (reset c nocache) where
  settled := by constructor <;> intro h <;> simp [reset, L2.resetRegs] at h
  ctl := ⟨g.l2Lines_pos, rfl⟩
  pulses := ⟨nofun, nofun, nofun, nofun, nofun, nofun⟩
  pipe := L1d.pipe_reset _ _
  bus := ⟨rfl, nofun, rfl, nofun, fun _ => ⟨rfl, rfl⟩, by simp [reset, Arbiter.reset], nofun, nofun, nofun, nofun⟩
  probing := ⟨nofun, nofun, nofun⟩

/-- They are in order in every reachable state. -/
theorem wf_run (c : Contents) (nocache : Bool) (is : List Stim) :
    Wf g ((reset c nocache).run g is) :=
  Hw.run_invariant (fun _ _ h => wf_next h) (wf_reset c nocache) is

end Hier

end R9999
