import R9999.L1d.Forward
import R9999.L1d.Order

/-!
# Address errors in the L1D

The memory unit flags a request whose address is not accepted (`bad_addr`).  Port 2 answers it
as an address error and gives it up: it is neither queued nor turned into a fill, and it fills
no slot of the store buffer, so the port that writes the array and talks to the L2 never sees
a flagged request.
-/

namespace R9999

namespace L1d

variable {g : Geometry} {s : L1d} {i : Input} {c : Comb}

/-! ## The answer -/

/-- The answer of port 2 to a request that is a fault, a move or a probe: its data is the
address of the request. -/
structure FaultRsp where
  line : Nat
  off : Fin 16
  badAddr : Bool := false
  tlbRefill : Bool := false
  tlbInvalid : Bool := false
  tlbModified : Bool := false
  deriving DecidableEq, Repr

/-- The arms of the port-2 pass that answer without data, by priority. -/
def faultRsp (s : L1d) (i : Input) : Option FaultRsp :=
  let q := s.regs.req2
  let r : FaultRsp := { line := q.line, off := q.off }
  if q.commit then none
  else if i.drainDsComplete then some { r with badAddr := q.badAddr }
  else if q.op == .mov || q.op == .tlbp then some r
  else if q.badAddr then some { r with badAddr := true }
  else if !i.tlbHit then some { r with tlbRefill := true }
  else if !i.tlbValid then some { r with tlbInvalid := true }
  else if q.isStore && !i.tlbDirty && !q.isChop then some { r with tlbModified := true }
  else if i.tlbOor then some { r with badAddr := true }
  else none

/-- A request of the core that its address unit flags. -/
structure Flagged (q : CoreReq) : Prop where
  badAddr : q.badAddr = true
  commit : q.commit = false
  op : q.op ≠ .mov ∧ q.op ≠ .tlbp

/-- A flagged request is answered as an address error, with its own address for data. -/
theorem faultRsp_flagged (h : Flagged s.regs.req2) :
    faultRsp s i = some { line := s.regs.req2.line, off := s.regs.req2.off, badAddr := true } := by
  have hop : (s.regs.req2.op == .mov || s.regs.req2.op == .tlbp) = false := by
    rw [Bool.or_eq_false_iff, beq_eq_false_iff_ne, beq_eq_false_iff_ne]
    exact h.op
  simp only [faultRsp, h.commit, hop, h.badAddr, Bool.false_eq_true, if_false, if_true, ite_self]

/-- The answer has no data, whatever the store buffer and the array hold. -/
theorem reply2_flagged {n : ℕ} [NeZero n] (h : Flagged s.regs.req2) (v : LsuView n)
    (o : OlderSt n) (line : Line) : reply2 g s i v o line = .noData := by
  simp only [reply2, h.commit, h.badAddr, Bool.true_or, Bool.false_eq_true, if_false, if_true,
    ite_self]

theorem pass2_flagged (h : Flagged s.regs.req2) : pass2 g s i = .answer := by
  simp only [pass2, h.commit, h.badAddr, Bool.true_or, Bool.false_eq_true, if_false, if_true,
    ite_self]

/-- Port 2 gives a flagged request up. -/
theorem port2_flagged (h : Flagged s.regs.req2) : port2 g s i c = c := by
  rw [port2, pass2_flagged h]
  exact ite_self c

/-! ## Port 1 -/

theorem req_port1 : (port1 g s i c).n.req = c.n.req := by
  simp only [port1, chopReq, uncachedReq, hitReq, dirtyMiss, cleanMiss, send,
    apply_ite Comb.n, apply_ite Regs.req, ite_self]

theorem req_startFlush : (startFlush g s i c).n.req = c.n.req := by
  simp only [startFlush, apply_ite Comb.n, apply_ite Regs.req, ite_self]

/-- The request of port 1 stays, or is the head of the miss queue. -/
theorem req_mqHead :
    (mqHead g s i c).n.req = c.n.req ∨ ∃ e ∈ s.mq, (mqHead g s i c).n.req = e.req := by
  have hc := mqHead_cases g s i c
  generalize mqHead g s i c = c' at hc
  cases hc with
  | keep => exact .inl rfl
  | drop => exact .inl rfl
  | fire e tl rd hm => exact .inr ⟨e, by simp [hm], rfl⟩

theorem req_active :
    (active g s i c).n.req = c.n.req ∨ ∃ e ∈ s.mq, (active g s i c).n.req = e.req := by
  have h := req_mqHead (g := g) (s := s) (i := i) (c := port1 g s i c)
  rw [req_port1] at h
  have hactive : (active g s i c).n.req = (mqHead g s i (port1 g s i c)).n.req := by
    unfold active
    dsimp only
    split
    · rfl
    split
    · rfl
    · exact req_startFlush
  rw [hactive]
  exact h

theorem req_combState :
    (combState g s i c).n.req = c.n.req ∨ ∃ e ∈ s.mq, (combState g s i c).n.req = e.req := by
  cases hs : s.regs.state with
  | active =>
    simp only [combState, hs]
    exact req_active
  | _ =>
    refine .inl ?_
    simp only [combState, hs, injectReload, flushCl, flushClWait, flushPg, flushPgWait, flushCache,
      probeChk, refire, send, apply_ite Comb.n, apply_ite Regs.req, ite_self]

theorem req_comb :
    (comb g s i).n.req = (port2 g s i (combDefault s i)).n.req ∨
      ∃ e ∈ s.mq, (comb g s i).n.req = e.req := by
  have h := req_combState (g := g) (s := s) (i := i) (c := port2 g s i (combDefault s i))
  have hcomb : (comb g s i).n.req = (combState g s i (port2 g s i (combDefault s i))).n.req := by
    unfold comb acceptPort2 takeProbe
    simp only [apply_ite Comb.n, apply_ite Regs.req, ite_self]
  rw [hcomb]
  exact h

/-! ## Runs -/

/-- No request that waits for port 1, or is on it, is flagged. -/
structure Unflagged (s : L1d) : Prop where
  mq : ∀ e ∈ s.mq, e.req.badAddr = false
  req : s.regs.req.badAddr = false

/-- What port 2 queues is a retired store or a request that is not flagged. -/
theorem mqPush_unflagged (h : pass2 g s i = .queue) : (mqPush g s i).req.badAddr = false := by
  by_cases hc : s.regs.req2.commit = true
  · rw [mqPush, if_pos hc]
  · rw [mqPush, if_neg hc]
    show s.regs.req2.badAddr = false
    by_contra hb
    simp only [pass2, hc, (by simpa using hb : s.regs.req2.badAddr = true), Bool.true_or,
      Bool.false_eq_true, if_false, if_true] at h
    revert h
    split_ifs <;> exact (fun h => by cases h)

theorem pushMiss_pass2 (h : (comb g s i).pushMiss = true) : pass2 g s i = .queue := by
  have hk : (comb g s i).pushMiss = (port2 g s i (combDefault s i)).pushMiss :=
    congrArg (·.1) kept_comb
  rw [hk, port2] at h
  split at h
  · cases hp : pass2 g s i with
    | queue => rfl
    | answer => rw [hp] at h; cases h
    | address => rw [hp] at h; cases h
    | fill => rw [hp] at h; cases h
  · cases h

theorem unflagged_next (h : Unflagged s) : Unflagged (s.next g i) where
  mq := by
    have htl : ∀ e ∈ (if (comb g s i).popMq then s.mq.tail else s.mq), e.req.badAddr = false := by
      intro e he
      split at he
      · exact h.mq e (List.mem_of_mem_tail he)
      · exact h.mq e he
    intro e he
    simp only [next] at he
    by_cases hm : (comb g s i).pushMiss = true
    · rw [if_pos hm, List.mem_append, List.mem_singleton] at he
      rcases he with he | rfl
      · exact htl e he
      · exact mqPush_unflagged (pushMiss_pass2 hm)
    · rw [if_neg hm] at he
      exact htl e he
  req := by
    show (comb g s i).n.req.badAddr = false
    obtain hp | ⟨e, he, hreq⟩ := req_comb (g := g) (s := s) (i := i)
    · rw [hp]
      have hc := port2_cases g s i (combDefault s i)
      generalize port2 g s i (combDefault s i) = c' at hc
      cases hc with
      | keep => exact h.req
      | push => exact h.req
      | sbWr => exact h.req
      | fill _ hb => exact hb
    · rw [hreq]
      exact h.mq e he

theorem unflagged_reset (tag : Nat → Nat) (data : Nat → Line) : Unflagged (reset tag data) :=
  ⟨fun e he => by simp [reset] at he, rfl⟩

/-- **A flagged request touches nothing.**  It is not queued, fills no slot of the store
buffer, and is not handed to port 1. -/
theorem flagged_touches_nothing (h : Flagged s.regs.req2) :
    (comb g s i).pushMiss = false ∧ (comb g s i).sbWr = false ∧
      ((comb g s i).n.req = s.regs.req ∨ ∃ e ∈ s.mq, (comb g s i).n.req = e.req) := by
  have hk : (comb g s i).kept = (combDefault s i).kept := by rw [kept_comb, port2_flagged h]
  refine ⟨congrArg (·.1) hk, congrArg (·.2.1) hk, ?_⟩
  have hreq := req_comb (g := g) (s := s) (i := i)
  rw [port2_flagged h] at hreq
  exact hreq

end L1d

end R9999
