import R9999.L1d.Model

/-!
# The two port pipes of the L1D

What holds of the requests inside the L1D whatever the L2 does: every queued request is
placed in a set of its own page offset, the RAM outputs a state looks at are the current
contents of the set, the bypass registers are never needed, and a write is never followed
at once by a lookup of the same set.  `pipe_next` says that a clock edge keeps these
facts.

The combinational block is taken apart stage by stage: `port2_cases`, `mqHead_cases` and
`port1_cases` list what each stage can do.
-/

namespace R9999

namespace L1d

variable {g : Geometry} {s : L1d} {i : Input}

/-- A line in a set that can hold it. -/
def Placed (g : Geometry) (x : LineAddr) (idx : Nat) : Prop :=
  idx % g.pgLines = x % g.pgLines ∧ idx < g.l1Sets

/-- The requests that make a pass on port 1: aligned, and a plain store only as the
commit of a retired store. -/
structure Kind (q : CoreReq) : Prop where
  isStore : q.isStore = (CoreReq.storeOp q.op || q.isChop)
  aligned : q.Aligned
  commit : CoreReq.storeOp q.op = true → q.commit = true
  storeOp : q.commit = true → CoreReq.storeOp q.op = true

/-- A well-formed store-buffer slot. -/
structure SlotOk (g : Geometry) (e : SbSlot) : Prop where
  placed : Placed g e.line e.idx
  storeOp : CoreReq.storeOp e.op = true
  aligned : ∀ q : CoreReq, q.op = e.op → q.off = e.off → q.Aligned

theorem isChop_of_storeOp {q : CoreReq} (h : CoreReq.storeOp q.op = true) : q.isChop = false := by
  cases ho : q.op <;> simp_all [CoreReq.storeOp, CoreReq.isChop]

theorem aligned_congr {q q' : CoreReq} (ho : q.op = q'.op) (hf : q.off = q'.off) :
    q.Aligned ↔ q'.Aligned := by
  simp only [CoreReq.Aligned, ho, hf]

/-! ## The stages of the combinational block -/

/-- What port 2 does: nothing to the registers, unless it starts a fill. -/
inductive Port2 (g : Geometry) (s : L1d) (i : Input) (c : Comb) : Comb → Prop
  | keep : Port2 g s i c c
  | push (hg : s.regs.gotReq2 = true)
      (hs : s.regs.state = .active ∨ s.regs.state = .injectReload)
      (hk : s.regs.req2.Ok → s.regs.req2.commit = false →
        s.regs.req2.badAddr = false ∧ CoreReq.storeOp s.regs.req2.op = false) :
      Port2 g s i c { c with pushMiss := true }
  | sbWr (hg : s.regs.gotReq2 = true) (hst : s.regs.req2.isStore = true)
      (hc : s.regs.req2.isChop = false) (hb : s.regs.req2.badAddr = false) :
      Port2 g s i c { c with sbWr := true }
  | fill (hf : directFillOk g s i = true) (hb : s.regs.req2.badAddr = false)
      (hc : s.regs.req2.commit = false) (hst : s.regs.req2.isStore = false) :
      Port2 g s i c (directFill g s i c)

theorem ite_ne {α : Type} {c : Prop} [Decidable c] {a b p : α} (ha : a ≠ p) (hb : b ≠ p) :
    (if c then a else b) ≠ p := by
  split
  · exact ha
  · exact hb

theorem pass2_queue (h : pass2 g s i = .queue) (hok : s.regs.req2.Ok)
    (hc : s.regs.req2.commit = false) :
    s.regs.req2.badAddr = false ∧ CoreReq.storeOp s.regs.req2.op = false := by
  unfold pass2 at h
  constructor
  · cases hb : s.regs.req2.badAddr
    · rfl
    · simp [hc, hb] at h
  · cases hso : CoreReq.storeOp s.regs.req2.op
    · rfl
    · -- a plain store is held by the LSU, so it took the address-pass arm
      have h1 : s.regs.req2.isStore = true := by rw [hok.isStore, hso]; rfl
      have h2 := isChop_of_storeOp hso
      simp only [hc, h1, h2, hok.lsuHold h1, Bool.not_false, Bool.and_true, if_true,
        Bool.false_eq_true, if_false] at h
      refine absurd h ?_
      repeat' apply ite_ne
      all_goals decide

theorem pass2_address (h : pass2 g s i = .address) :
    s.regs.req2.isStore = true ∧ s.regs.req2.isChop = false ∧ s.regs.req2.badAddr = false := by
  unfold pass2 at h
  refine ⟨?_, ?_, ?_⟩
  · cases hst : s.regs.req2.isStore
    · simp only [hst, Bool.false_and, Bool.false_eq_true, if_false] at h
      refine absurd h ?_
      repeat' apply ite_ne
      all_goals decide
    · rfl
  · cases hch : s.regs.req2.isChop
    · rfl
    · simp only [hch, Bool.not_true, Bool.and_false, Bool.false_eq_true, if_false] at h
      refine absurd h ?_
      repeat' apply ite_ne
      all_goals decide
  · cases hb : s.regs.req2.badAddr
    · rfl
    · simp only [hb, Bool.true_or, if_true] at h
      refine absurd h ?_
      repeat' apply ite_ne
      all_goals decide

theorem pass2_fill (h : pass2 g s i = .fill) :
    directFillOk g s i = true ∧ s.regs.req2.badAddr = false ∧ s.regs.req2.commit = false := by
  unfold pass2 at h
  refine ⟨?_, ?_, ?_⟩
  · cases hf : directFillOk g s i
    · simp only [hf, Bool.false_eq_true, if_false] at h
      refine absurd h ?_
      repeat' apply ite_ne
      all_goals decide
    · rfl
  · cases hb : s.regs.req2.badAddr
    · rfl
    · simp only [hb, Bool.true_or, if_true] at h
      refine absurd h ?_
      repeat' apply ite_ne
      all_goals decide
  · cases hc : s.regs.req2.commit
    · rfl
    · simp only [hc, if_true] at h
      cases h

theorem port2_cases (g : Geometry) (s : L1d) (i : Input) (c : Comb) :
    Port2 g s i c (port2 g s i c) := by
  unfold port2
  by_cases hg : (s.regs.gotReq2 && (s.regs.state == .active || s.regs.state == .injectReload))
      = true
  · rw [if_pos hg]
    have hg' : s.regs.gotReq2 = true ∧
        (s.regs.state = .active ∨ s.regs.state = .injectReload) := by simpa using hg
    cases hp : pass2 g s i with
    | answer => exact .keep
    | address =>
      obtain ⟨h1, h2, h3⟩ := pass2_address hp
      exact .sbWr hg'.1 h1 h2 h3
    | queue => exact .push hg'.1 hg'.2 (pass2_queue hp)
    | fill =>
      obtain ⟨h1, h2, h3⟩ := pass2_fill hp
      refine .fill h1 h2 h3 ?_
      simp only [directFillOk, Bool.and_eq_true, Bool.not_eq_true'] at h1
      grind
  · rw [if_neg hg]
    exact .keep

/-- What the head of the miss queue does. -/
inductive MqHead (g : Geometry) (s : L1d) (i : Input) (c : Comb) : Comb → Prop
  | keep : MqHead g s i c c
  | drop (hm : s.mq ≠ []) (hb : s.regs.gotReq = true → s.regs.lastWr = true →
        ∀ e ∈ s.mq.head?, s.regs.cacheIdx ≠ e.idx) :
      MqHead g s i c { c with popMq := true }
  | fire (e : MqEntry) (tl : List MqEntry) (rd : Bool) (hm : s.mq = e :: tl)
      (hg : c.gotMiss = false) (hp : prbPend s.regs i = false)
      (hb : s.regs.gotReq = true → s.regs.lastWr = true → s.regs.cacheIdx ≠ e.idx) :
      MqHead g s i c
        { firePort1 g e c with
          gotRdRetry := rd || c.gotRdRetry
          n := { (firePort1 g e c).n with lastWr := if e.req.commit then true else c.n.lastWr } }

theorem mqHead_cases (g : Geometry) (s : L1d) (i : Input) (c : Comb) :
    MqHead g s i c (mqHead g s i c) := by
  simp only [mqHead]
  split
  case h_1 => exact .keep
  case h_2 e tl hm =>
    split
    case isFalse => exact .keep
    case isTrue hc =>
      simp only [Bool.and_eq_true, Bool.not_eq_true', Bool.and_eq_false_iff,
        beq_eq_false_iff_ne] at hc
      obtain ⟨⟨⟨hg, -⟩, hp⟩, hb⟩ := hc
      have hb' : s.regs.gotReq = true → s.regs.lastWr = true → s.regs.cacheIdx ≠ e.idx := by
        intro h1 h2
        rcases hb with (h | h) | h
        · exact absurd h1 (by simp [h])
        · exact absurd h2 (by simp [h])
        · exact h
      split
      · refine .drop (by simp [hm]) fun h1 h2 e' he' => ?_
        rw [hm] at he'
        cases he'
        exact hb' h1 h2
      split
      case isTrue hc =>
        have h := MqHead.fire (g := g) (c := c) e tl false hm hg hp hb'
        simp only [hc, if_true, Bool.false_or] at h
        exact h
      case isFalse hc =>
        have h := MqHead.fire (g := g) (c := c) e tl true hm hg hp hb'
        simp only [hc, Bool.true_or] at h
        split; · exact h
        split; · exact h
        · exact .keep

/-! ## The invariant of the pipes -/

/-- The states in which the L1D can be found by a probe. -/
def probed : State → Bool
  | .active | .injectReload | .injectUncacheStore | .injectUncacheLoad | .flushClWait
  | .flushCacheWait | .flushCacheLastWait | .flushPgWait | .uncacheWb => true
  | _ => false

/-- The state of the request the L1D has outstanding: a probe is answered on behalf of the
state it interrupted. -/
def behind (state ret : State) : State := if state = .probeChk then ret else state

/-- The requests inside the L1D are in order. -/
structure Pipe (g : Geometry) (s : L1d) : Prop where
  mq : ∀ e ∈ s.mq, Placed g e.req.line e.idx ∧ Kind e.req
  sb : ∀ k, SlotOk g (s.sb k)
  req2 : s.regs.req2.Ok
  req : Placed g s.regs.req.line s.regs.reqIdx ∧ Kind s.regs.req
  /-- The port-1 request is in `ACTIVE`, and its set has just been read. -/
  got : s.regs.gotReq = true → s.regs.state = .active ∧ s.out = s.arr s.regs.cacheIdx ∧
    s.regs.cacheIdx = s.regs.reqIdx ∧ s.regs.cacheTag = g.l1Tag s.regs.req.line
  lastWr : s.regs.lastWr = true → s.regs.gotReq = true
  /-- A cached request on port 1 may write. -/
  retry : s.regs.gotReq = true → s.regs.req.cached = true →
    (s.regs.isRetry || s.regs.didReload) = true
  /-- A pass that may write is announced by `r_last_wr`. -/
  writes : s.regs.gotReq = true → CoreReq.storeOp s.regs.req.op = true →
    (s.regs.isRetry || s.regs.didReload) = true → s.regs.lastWr = true
  fresh : s.regs.gotReq = true → justWritten s.regs = false
  forward : s.regs.mustForward = false
  got2 : s.regs.gotReq2 = true →
    (s.regs.state = .active ∨ s.regs.state = .injectReload) ∧
      s.regs.cacheIdx2 = g.l1Idx s.regs.req2.line
  /-- The set read on port 2 is current unless port 1 wrote in the same cycle. -/
  fresh2 : s.regs.gotReq2 = true → s.regs.state = .active → s.regs.rrLastWr = false →
    s.out2 = s.arr s.regs.cacheIdx2
  /-- The states that look at the RAM outputs find the current contents there. -/
  look : s.regs.state = .flushCl ∨ s.regs.state = .flushPg ∨ s.regs.state = .flushCache ∨
    s.regs.state = .probeChk → s.out = s.arr s.regs.cacheIdx
  state : s.regs.state ≠ .waitInjectReload
  ret : s.regs.state = .probeChk → probed s.regs.prbRet = true ∧
    (s.regs.prbRet = .uncacheWb → s.regs.uncacheWbDirty = true)
  uncached : behind s.regs.state s.regs.prbRet = .uncacheWb → s.regs.req.cached = false

end L1d

end R9999
