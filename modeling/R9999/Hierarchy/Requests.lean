import R9999.Hierarchy.Bus

/-!
# Requests and responses are conserved

What goes from the L1 caches to the L2 and back, counted along a run: the request pulses
of an L1 and the replies it gets, the requests the L2 accepts and the responses it gives,
the snoops it accepts and the completions it signals.
-/

namespace R9999

open L2View (owes accepts snooping acceptsSnoop)

namespace Hier

variable {g : Geometry} {s : Hier} {i : Stim}

/-- The L1D's request pulse. -/
def pulseD (s : Hier) (_ : Stim) : Nat := s.l1d.regs.memReqValid.toNat

/-- The L1I's request pulse. -/
def pulseI (s : Hier) (_ : Stim) : Nat := s.l1i.memReqValid.toNat

/-- The response delivered to the L1D. -/
def answerD (s : Hier) (_ : Stim) : Nat := s.l1dRsp.toNat

/-- The response delivered to the L1I. -/
def answerI (s : Hier) (_ : Stim) : Nat := s.l1iRsp.toNat

/-- The L2 accepts a request of the L1D. -/
def acceptD (g : Geometry) (s : Hier) (i : Stim) : Nat :=
  (accepts s.l2.regs (s.l2Pins g i) && (s.l2Req g).fromD).toNat

/-- The L2 accepts a request of the L1I. -/
def acceptI (g : Geometry) (s : Hier) (i : Stim) : Nat :=
  (accepts s.l2.regs (s.l2Pins g i) && !(s.l2Req g).fromD).toNat

/-- A request of the L1D is latched in the arbiter or granted. -/
def heldD (s : Hier) : Nat := (s.arb.l1dReq || s.arb.state == .gntL1d).toNat

/-- A request of the L1I is latched in the arbiter or granted. -/
def heldI (s : Hier) : Nat := (s.arb.l1iReq || s.arb.state == .gntL1i).toNat

/-- The L2 serves or answers a request of the L1D. -/
def servedD (s : Hier) : Nat := (s.served && s.l2.regs.fromD).toNat

/-- The L2 serves or answers a request of the L1I. -/
def servedI (s : Hier) : Nat := (s.served && !s.l2.regs.fromD).toNat

/-- The L2 accepts a snoop. -/
def acceptSnoop (g : Geometry) (s : Hier) (i : Stim) : Nat :=
  (acceptsSnoop s.l2.regs (s.l2Pins g i)).toNat

/-- The completion pulse of a snoop. -/
def snoopDone (s : Hier) (_ : Stim) : Nat := s.l2.regs.snoopDone.toNat

/-- The L2 serves or completes a snoop. -/
def servedSnoop (s : Hier) : Nat := (snooping s.l2.regs).toNat + s.l2.regs.snoopDone.toNat

/-! ## One clock edge -/

theorem Wf.pulseD_step (h : Wf g s) :
    pulseD s i + heldD s = answerD s i + heldD (s.next g i) := by
  have hp := h.bus.pulseD
  have hg := fun h => grant_gntL1d (a := s.arb) (d := s.l1d.regs.memReqValid)
    (j := s.l1i.memReqValid) h
  simp only [pulseD, heldD, answerD, l1dRsp]
  cases hs : s.arb.state with
  | idle =>
    rw [arb_next_idle hs]
    rw [hs] at hp
    revert hp hg
    cases s.l1d.regs.memReqValid <;> cases s.arb.l1dReq <;>
      cases s.arb.grant _ s.l1i.memReqValid <;> simp <;> rfl
  | gntL1d =>
    rw [arb_next_gntL1d hs]
    rw [hs] at hp
    revert hp
    cases s.l1d.regs.memReqValid <;> cases s.arb.l1dReq <;> cases s.l2.regs.rspValid <;> simp
  | gntL1i =>
    rw [arb_next_gntL1i hs]
    rw [hs] at hp
    revert hp
    cases s.l1d.regs.memReqValid <;> cases s.arb.l1dReq <;> cases s.l2.regs.rspValid <;> simp
    rfl

theorem Wf.pulseI_step (h : Wf g s) :
    pulseI s i + heldI s = answerI s i + heldI (s.next g i) := by
  have hp := h.bus.pulseI
  have hg := fun h => grant_gntL1i (a := s.arb) (d := s.l1d.regs.memReqValid)
    (j := s.l1i.memReqValid) h
  simp only [pulseI, heldI, answerI, l1iRsp]
  cases hs : s.arb.state with
  | idle =>
    rw [arb_next_idle hs]
    rw [hs] at hp
    revert hp hg
    cases s.l1i.memReqValid <;> cases s.arb.l1iReq <;>
      cases s.arb.grant s.l1d.regs.memReqValid _ <;> simp <;> rfl
  | gntL1d =>
    rw [arb_next_gntL1d hs]
    rw [hs] at hp
    revert hp
    cases s.l1i.memReqValid <;> cases s.arb.l1iReq <;> cases s.l2.regs.rspValid <;> simp
    rfl
  | gntL1i =>
    rw [arb_next_gntL1i hs]
    rw [hs] at hp
    revert hp
    cases s.l1i.memReqValid <;> cases s.arb.l1iReq <;> cases s.l2.regs.rspValid <;> simp

/-- The responses reach the L1 that the L2 serves. -/
theorem Wf.route (h : Wf g s) :
    s.l1dRsp = (s.l2.regs.rspValid && s.l2.regs.fromD) ∧
      s.l1iRsp = (s.l2.regs.rspValid && !s.l2.regs.fromD) := by
  have hf := h.bus.fromD
  have hi := h.bus.idle
  simp only [l1dRsp, l1iRsp, served] at hf hi ⊢
  revert hf hi
  cases s.l2.regs.rspValid <;> cases s.l2.regs.fromD <;> cases s.arb.state <;> simp

/-- The L2's next request register of the requester. -/
theorem Wf.serve_step (h : Wf g s) :
    acceptD g s i + servedD s = answerD s i + servedD (s.next g i) ∧
      acceptI g s i + servedI s = answerI s i + servedI (s.next g i) := by
  have hacc := h.served_of_accepts (i := i)
  have hrsp : s.l2.regs.rspValid = true → s.served = true := by
    intro hr
    simp [served, hr]
  have hnew : accepts s.l2.regs (s.l2Pins g i) = true →
      (s.next g i).l2.regs.fromD = (s.l2Req g).fromD :=
    fun ha => (L2View.accepted_step (l2_step h.settled) ha).fromD
  have hold : (s.served && !s.l2.regs.rspValid) = true →
      (s.next g i).l2.regs.fromD = s.l2.regs.fromD := by
    intro hsv
    refine (L2View.sameReq_step (l2_step (i := i) (g := g) h.settled) fun hi => ?_).fromD
    have hi' : s.l2.regs.state = .idle := hi
    simp [served, owes, hi'] at hsv
  simp only [acceptD, servedD, answerD, acceptI, servedI, answerI, h.route.1, h.route.2,
    h.served_next]
  revert hacc hrsp hnew hold
  cases accepts s.l2.regs (s.l2Pins g i) <;> cases s.served <;> cases s.l2.regs.rspValid <;>
    cases (s.l2Req g).fromD <;> cases s.l2.regs.fromD <;>
    cases (s.next g i).l2.regs.fromD <;> simp

theorem Wf.snoop_step (h : Wf g s) :
    acceptSnoop g s i + servedSnoop s = snoopDone s i + servedSnoop (s.next g i) := by
  have hc := L2View.snooping_step (l2_step h.settled (i := i)) h.ctl h.reqOk
  have hc' : (snooping (s.next g i).l2.regs).toNat + (s.next g i).l2.regs.snoopDone.toNat =
      (snooping s.l2.regs).toNat + (acceptsSnoop s.l2.regs (s.l2Pins g i)).toNat := hc
  simp only [acceptSnoop, servedSnoop, snoopDone]
  omega

/-- No response while a probe is out, and no memory request in `IDLE`. -/
theorem Wf.quiet (h : Wf g s) :
    ¬ (s.l2.regs.rspValid = true ∧ s.l2.regs.probeReq = true) ∧
      ¬ (s.l2.regs.state = .idle ∧ s.l2.regs.memReq = true) := by
  constructor
  · rintro ⟨hr, hp⟩
    have h1 : s.l2.regs.state = .checkValidAndTag := (h.pulses.probe hp).1
    have h2 : s.l2.regs.state = .idle ∨ s.l2.regs.state = .waitForRam := h.pulses.rsp hr
    simp [h1] at h2
  · rintro ⟨hs, hm⟩
    have h1 : L2View.memWaiting s.l2.regs.state = true := h.pulses.memReq hm
    simp [hs, L2View.memWaiting] at h1

/-- A request that waits for the L2 is presented to it as soon as its L1 is granted, and
is accepted as soon as the L2 is idle and neither a flush nor a snoop takes the cycle. -/
theorem Wf.presented (h : Wf g s) (hs : s.arb.state ≠ .idle) (hn : s.served = false) :
    (s.l2Pins g i).reqValid = true ∧
      (s.l2.regs.state = .idle → (L2View.tick s.l2.regs (s.l2Pins g i)).flushReq = false →
        i.snoopReqValid = false → accepts s.l2.regs (s.l2Pins g i) = true) := by
  have hr : s.arb.req = true := by
    rcases h.bus.granted hs with hr | hr
    · exact hr
    · exact absurd hr (by simp [hn])
  have hv : (s.l2Pins g i).reqValid = true := by
    change (s.arb.req || s.passthru) = true
    rw [hr]
    rfl
  refine ⟨hv, fun hi hf hsn => ?_⟩
  have hsn' : (s.l2Pins g i).snoopReqValid = false := hsn
  simp [accepts, hi, hf, hsn', hv]

end Hier

end R9999
