import R9999.L1d.Step

/-!
# The pipes stay in order

`pipe_next`: a clock edge keeps the facts `Pipe` lists about the requests inside the L1D.
What the next registers hold comes from `step_next`; what the queues hold from the stage
that fills them.
-/

namespace R9999

namespace L1d

variable {g : Geometry} {s : L1d} {i : Input} {c : Comb}

/-! ## What only port 2 and the defaults set -/

/-- The commands of port 2 and the two delayed registers: no stage after port 2 changes
them. -/
def Comb.kept (c : Comb) : Bool × Bool × Nat × Bool :=
  (c.pushMiss, c.sbWr, c.n.rrCacheIdx, c.n.rrLastWr)

theorem kept_port1 : (port1 g s i c).kept = c.kept := by
  simp only [port1, chopReq, uncachedReq, hitReq, dirtyMiss, cleanMiss, send,
    apply_ite Comb.kept]
  simp only [Comb.kept, ite_self]

theorem kept_mqHead : (mqHead g s i c).kept = c.kept := by
  unfold mqHead
  cases s.mq with
  | nil => rfl
  | cons e tl =>
    simp only [firePort1, apply_ite Comb.kept]
    simp only [Comb.kept, ite_self]

theorem kept_startFlush : (startFlush g s i c).kept = c.kept := by
  simp only [startFlush, apply_ite Comb.kept]
  simp only [Comb.kept, ite_self]

theorem kept_active : (active g s i c).kept = c.kept := by
  have h : (mqHead g s i (port1 g s i c)).kept = c.kept := by rw [kept_mqHead, kept_port1]
  unfold active
  dsimp only
  rw [apply_ite Comb.kept, apply_ite Comb.kept, kept_startFlush, h]
  split
  · rfl
  split
  · exact h
  · rfl

theorem kept_combState : (combState g s i c).kept = c.kept := by
  cases hs : s.regs.state with
  | active =>
    simp only [combState, hs]
    exact kept_active
  | _ =>
    simp only [combState, hs, injectReload, flushCl, flushClWait, flushPg, flushPgWait, flushCache, probeChk,
      refire, send, apply_ite Comb.kept]
    simp only [Comb.kept, ite_self]

theorem kept_comb : (comb g s i).kept = (port2 g s i (combDefault s i)).kept := by
  have h := kept_combState (g := g) (s := s) (i := i) (c := port2 g s i (combDefault s i))
  unfold comb acceptPort2 takeProbe
  rw [apply_ite Comb.kept]
  simp only [Comb.kept, apply_ite Comb.n, apply_ite Comb.pushMiss, apply_ite Comb.sbWr,
    apply_ite Regs.rrCacheIdx, apply_ite Regs.rrLastWr, ite_self] at h ⊢
  exact h

theorem port2_rr :
    (port2 g s i (combDefault s i)).n.rrCacheIdx = s.regs.cacheIdx ∧
      (port2 g s i (combDefault s i)).n.rrLastWr = s.regs.lastWr := by
  rcases base_or_fill g s i with hb | ⟨-, -, -, he⟩
  · rw [hb.n]
    exact ⟨rfl, rfl⟩
  · rw [he]
    exact ⟨rfl, rfl⟩

theorem next_rrCacheIdx : (s.next g i).regs.rrCacheIdx = s.regs.cacheIdx :=
  (congrArg (·.2.2.1) kept_comb).trans port2_rr.1

theorem next_rrLastWr : (s.next g i).regs.rrLastWr = s.regs.lastWr :=
  (congrArg (·.2.2.2) kept_comb).trans port2_rr.2

/-! ## The miss queue and the store buffer -/

/-- The queue is only popped when its head does not read a set being written. -/
theorem popMq_head (h : (comb g s i).popMq = true) (hg : s.regs.gotReq = true)
    (hw : s.regs.lastWr = true) (hs : s.regs.state = .active) :
    ∀ e ∈ s.mq.head?, s.regs.cacheIdx ≠ e.idx := by
  have h0 : (port1 g s i (port2 g s i (combDefault s i))).popMq = false := by
    have hb : (port2 g s i (combDefault s i)).popMq = false := by
      rcases base_or_fill g s i with hb | ⟨-, -, -, he⟩
      · exact hb.popMq
      · rw [he]
        rfl
    simp only [port1, chopReq, uncachedReq, hitReq, dirtyMiss, cleanMiss, send,
      apply_ite Comb.popMq, ite_self, hb]
  have h1 : (mqHead g s i (port1 g s i (port2 g s i (combDefault s i)))).popMq = true := by
    have ha := h
    simp only [comb, combState, hs, acceptPort2, takeProbe, active, startFlush,
      apply_ite Comb.popMq, ite_self] at ha
    exact ha
  have hc := mqHead_cases g s i (port1 g s i (port2 g s i (combDefault s i)))
  generalize mqHead g s i (port1 g s i (port2 g s i (combDefault s i))) = c' at h1 hc
  cases hc with
  | keep => exact absurd h1 (by simp [h0])
  | drop hm hb => exact hb hg hw
  | fire e tl rd hm _ _ hb =>
    intro e' he'
    rw [hm] at he'
    cases he'
    exact hb hg hw

theorem placed_remap (x p : Nat) : Placed g (p * g.pgLines + x % g.pgLines) (g.l1Idx x) := by
  refine ⟨?_, g.l1Idx_lt x⟩
  rw [g.l1Idx_mod, Nat.mul_comm, Nat.mul_add_mod, Nat.mod_mod]

/-- What port 2 queues is in order. -/
theorem Pipe.mqPush (hp : Pipe g s)
    (hk : s.regs.req2.commit = false →
      s.regs.req2.badAddr = false ∧ CoreReq.storeOp s.regs.req2.op = false) :
    Placed g (mqPush g s i).req.line (mqPush g s i).idx ∧ Kind (mqPush g s i).req := by
  by_cases hc : s.regs.req2.commit = true
  · have hsb := hp.sb s.regs.req2.lsuIdx
    simp only [L1d.mqPush, hc, if_true]
    refine ⟨hsb.placed, ?_, hsb.aligned _ rfl rfl, fun _ => rfl, fun _ => hsb.storeOp⟩
    simp [hsb.storeOp]
  · have hc' : s.regs.req2.commit = false := by simpa using hc
    obtain ⟨hb, ho⟩ := hk hc'
    simp only [L1d.mqPush, hc', Bool.false_eq_true, if_false]
    refine ⟨placed_remap _ _, hp.req2.isStore, ?_, fun h => ?_, fun h => ?_⟩
    · exact (aligned_congr rfl rfl).mp (hp.req2.aligned hb)
    · exact absurd h (by simp [remappedReq2, ho])
    · exact absurd h (by simp [remappedReq2, hc'])

/-- What is in the miss queue was there before, or is queued by port 2. -/
theorem mem_mq_next {e : MqEntry} (he : e ∈ (s.next g i).mq) :
    e ∈ s.mq ∨ e = mqPush g s i ∧ s.regs.gotReq2 = true ∧
      (s.regs.req2.Ok → s.regs.req2.commit = false →
        s.regs.req2.badAddr = false ∧ CoreReq.storeOp s.regs.req2.op = false) := by
  have hk : (comb g s i).pushMiss = (port2 g s i (combDefault s i)).pushMiss :=
    congrArg (·.1) kept_comb
  have hpush : (comb g s i).pushMiss = true → s.regs.gotReq2 = true ∧
      (s.regs.req2.Ok → s.regs.req2.commit = false →
        s.regs.req2.badAddr = false ∧ CoreReq.storeOp s.regs.req2.op = false) := by
    rw [hk]
    have hc := port2_cases g s i (combDefault s i)
    generalize port2 g s i (combDefault s i) = c at hc
    cases hc with
    | keep => exact fun h => nomatch h
    | push hg _ hk => exact fun _ => ⟨hg, hk⟩
    | sbWr => exact fun h => nomatch h
    | fill => exact fun h => nomatch h
  have htl : e ∈ (if (comb g s i).popMq then s.mq.tail else s.mq) → e ∈ s.mq := by
    intro he
    split at he
    · exact List.mem_of_mem_tail he
    · exact he
  simp only [next] at he
  by_cases hm : (comb g s i).pushMiss = true
  · rw [if_pos hm, List.mem_append, List.mem_singleton] at he
    rcases he with he | he
    · exact .inl (htl he)
    · exact .inr ⟨he, hpush hm⟩
  · rw [if_neg hm] at he
    exact .inl (htl he)

theorem Pipe.mq_next (hp : Pipe g s) :
    ∀ e ∈ (s.next g i).mq, Placed g e.req.line e.idx ∧ Kind e.req := by
  intro e he
  rcases mem_mq_next he with he | ⟨rfl, -, hk⟩
  · exact hp.mq e he
  · exact hp.mqPush (hk hp.req2)

theorem SlotOk.data {e : SbSlot} (h : SlotOk g e) (d : BitVec 64) :
    SlotOk g { e with data := d } :=
  ⟨h.placed, h.storeOp, h.aligned⟩

theorem Pipe.sb_next (hp : Pipe g s) : ∀ k, SlotOk g ((s.next g i).sb k) := by
  have hk : (comb g s i).sbWr = (port2 g s i (combDefault s i)).sbWr :=
    congrArg (·.2.1) kept_comb
  have hwr : (comb g s i).sbWr = true → s.regs.req2.isStore = true ∧
      s.regs.req2.isChop = false ∧ s.regs.req2.badAddr = false := by
    rw [hk]
    have hc := port2_cases g s i (combDefault s i)
    generalize port2 g s i (combDefault s i) = c at hc
    cases hc with
    | keep => exact fun h => nomatch h
    | push => exact fun h => nomatch h
    | sbWr _ h1 h2 h3 => exact fun _ => ⟨h1, h2, h3⟩
    | fill => exact fun h => nomatch h
  have hslot : (comb g s i).sbWr = true → ∀ d, SlotOk g
      { (s.sb s.regs.req2.lsuIdx) with
        line := (remappedReq2 g s i).line, idx := g.l1Idx s.regs.req2.line
        op := (remappedReq2 g s i).op, off := (remappedReq2 g s i).off
        cached := (remappedReq2 g s i).cached, scOk := d } := by
    intro h d
    obtain ⟨h1, h2, h3⟩ := hwr h
    refine ⟨placed_remap _ _, ?_, ?_⟩
    · have := hp.req2.isStore
      rw [h1, h2, Bool.or_false] at this
      exact this.symm
    · intro q ho hf
      exact (aligned_congr ho hf).mpr (hp.req2.aligned h3)
  have hmid : ∀ k, SlotOk g
      ((if (comb g s i).sbWr then
        Function.update s.sb s.regs.req2.lsuIdx
          { s.sb s.regs.req2.lsuIdx with
            line := (remappedReq2 g s i).line, idx := g.l1Idx s.regs.req2.line
            op := (remappedReq2 g s i).op, off := (remappedReq2 g s i).off
            cached := (remappedReq2 g s i).cached, scOk := i.matchLink2 }
      else s.sb) k) := by
    intro k
    split
    case isTrue h =>
      by_cases hkk : k = s.regs.req2.lsuIdx
      · subst hkk
        rw [Function.update_self]
        exact hslot h _
      · rw [Function.update_of_ne hkk]
        exact hp.sb k
    case isFalse => exact hp.sb k
  intro k
  simp only [next, sbNext]
  split
  · by_cases hkk : k = i.sbDataIdx
    · subst hkk
      rw [Function.update_self]
      exact (hmid _).data _
    · rw [Function.update_of_ne hkk]
      exact hmid k
  · exact hmid k

/-! ## The registers -/

/-- The states that look at the RAM output of port 1 without a request. -/
def looks : State → Bool
  | .flushCl | .flushPg | .flushCache | .probeChk => true
  | _ => false

/-- The facts of `Pipe` about the registers `p` and the array `a` after a clock edge of
`s`. -/
structure Ordered (g : Geometry) (s : L1d) (p : Proto) (a : Nat → L1dEntry) : Prop where
  req2 : p.req2.Ok
  req : Placed g p.req.line p.reqIdx ∧ Kind p.req
  got : p.gotReq = true → p.state = .active ∧ s.arr p.cacheIdx = a p.cacheIdx ∧
    p.cacheIdx = p.reqIdx ∧ p.cacheTag = g.l1Tag p.req.line
  lastWr : p.lastWr = true → p.gotReq = true
  retry : p.gotReq = true → p.req.cached = true → (p.isRetry || p.didReload) = true
  writes : p.gotReq = true → CoreReq.storeOp p.req.op = true →
    (p.isRetry || p.didReload) = true → p.lastWr = true
  fresh : p.gotReq = true → s.regs.lastWr = true → s.regs.cacheIdx ≠ p.cacheIdx
  got2 : p.gotReq2 = true → (p.state = .active ∨ p.state = .injectReload) ∧
    p.cacheIdx2 = g.l1Idx p.req2.line
  fresh2 : p.gotReq2 = true → p.state = .active → s.regs.lastWr = false →
    s.arr p.cacheIdx2 = a p.cacheIdx2
  look : looks p.state = true → s.arr p.cacheIdx = a p.cacheIdx
  state : p.state ≠ .waitInjectReload
  ret : p.state = .probeChk → probed p.prbRet = true ∧
    (p.prbRet = .uncacheWb → p.uncacheWbDirty = true)
  uncached : behind p.state p.prbRet = .uncacheWb → p.req.cached = false

section Registers

variable {p : Proto} {a : Nat → L1dEntry}

/-- The steps that leave both ports empty. -/
theorem Ordered.of_quiet (hp : Pipe g s) (h1 : p.gotReq = false) (h2 : p.gotReq2 = false)
    (hw : p.lastWr = false) (hr : p.req = s.regs.req) (hx : p.reqIdx = s.regs.reqIdx)
    (hr2 : p.req2 = s.regs.req2) (hs : p.state ≠ .waitInjectReload ∧ p.state ≠ .probeChk)
    (hl : looks p.state = true → s.arr p.cacheIdx = a p.cacheIdx)
    (hu : p.state = .uncacheWb → s.regs.req.cached = false) : Ordered g s p a where
  req2 := hr2 ▸ hp.req2
  req := by
    rw [hr, hx]
    exact hp.req
  got h := absurd h (by simp [h1])
  lastWr h := absurd h (by simp [hw])
  retry h := absurd h (by simp [h1])
  writes h := absurd h (by simp [h1])
  fresh h := absurd h (by simp [h1])
  got2 h := absurd h (by simp [h2])
  fresh2 h := absurd h (by simp [h2])
  look := hl
  state := hs.1
  ret h := absurd h hs.2
  uncached h := by
    rw [behind, if_neg hs.2] at h
    rw [hr]
    exact hu h

/-- The states that neither look at the RAMs nor push a copy out for an uncached access. -/
def plain : State → Bool
  | .flushCl | .flushPg | .flushCache | .probeChk | .waitInjectReload | .uncacheWb => false
  | _ => true

theorem Ordered.of_plain (hp : Pipe g s) {t : State} (hs : p.state = t) (ht : plain t = true)
    (h1 : p.gotReq = false) (h2 : p.gotReq2 = false) (hw : p.lastWr = false)
    (hr : p.req = s.regs.req) (hx : p.reqIdx = s.regs.reqIdx) (hr2 : p.req2 = s.regs.req2) :
    Ordered g s p a := by
  subst hs
  refine .of_quiet hp h1 h2 hw hr hx hr2 ⟨?_, ?_⟩ ?_ ?_
  · intro h
    simp [h, plain] at ht
  · intro h
    simp [h, plain] at ht
  · cases h : p.state <;> simp [h, plain, looks] at ht ⊢
  · intro h
    simp [h, plain] at ht

/-- A state that looks at the RAMs without a request. -/
theorem Ordered.of_looks (hp : Pipe g s) {t : State} (hs : p.state = t)
    (ht : t = .flushCl ∨ t = .flushPg ∨ t = .flushCache) (h1 : p.gotReq = false)
    (h2 : p.gotReq2 = false) (hw : p.lastWr = false) (hr : p.req = s.regs.req)
    (hx : p.reqIdx = s.regs.reqIdx) (hr2 : p.req2 = s.regs.req2)
    (hl : s.arr p.cacheIdx = a p.cacheIdx) : Ordered g s p a := by
  refine .of_quiet hp h1 h2 hw hr hx hr2 ?_ (fun _ => hl) ?_
  · rcases ht with rfl | rfl | rfl <;> simp [hs]
  · rcases ht with rfl | rfl | rfl <;> simp [hs]

/-- A request enters port 2. -/
theorem Ordered.accept (h : Ordered g s p a) (hok : i.coreReq.Ok) (b : Bool)
    (hs : b = true → p.state = .active ∨ p.state = .injectReload)
    (ha : b = true → p.state = .active → s.regs.lastWr = false → ∀ j, s.arr j = a j) :
    Ordered g s (p.accept g i b) a := by
  cases b with
  | false => exact h
  | true =>
    exact
      { h with
        req2 := hok
        got2 := fun _ => ⟨hs rfl, rfl⟩
        fresh2 := fun _ h1 h2 => ha rfl h1 h2 _ }

/-- The head of the miss queue enters port 1. -/
theorem Ordered.fire (hp : Pipe g s) (hs : s.regs.state = .active) {f : Option MqEntry}
    (hf : Fires s i f)
    (ha : ∀ j, (s.regs.lastWr = true → s.regs.cacheIdx ≠ j) → s.arr j = a j) :
    Ordered g s ((s.regs.proto.tick i).fire g f) a := by
  cases f with
  | none => exact .of_plain hp hs rfl rfl rfl rfl rfl rfl rfl
  | some e =>
    obtain ⟨hm, -, hb⟩ := hf e rfl
    have hmem : e ∈ s.mq := List.mem_of_mem_head? hm
    have hidx : s.regs.lastWr = true → s.regs.cacheIdx ≠ e.idx := fun h => hb (hp.lastWr h) h
    have hst : ((s.regs.proto.tick i).fire g (some e)).state = .active := hs
    exact
      { req2 := hp.req2
        req := hp.mq e hmem
        got := fun _ => ⟨hs, ha _ hidx, rfl, rfl⟩
        lastWr := fun _ => rfl
        retry := fun _ _ => rfl
        writes := fun _ h _ => (hp.mq e hmem).2.commit h
        fresh := fun _ h => hidx h
        got2 := nofun
        fresh2 := nofun
        look := fun h => absurd h (by rw [hst]; simp [looks])
        state := by rw [hst]; simp
        ret := fun h => absurd h (by rw [hst]; simp)
        uncached := fun h => absurd h (by rw [behind, hst]; simp) }

/-- A lookup of the port-1 request that leaves the array alone. -/
theorem Ordered.of_refire (hp : Pipe g s) (hg : s.regs.gotReq = false) (h1 : p.gotReq = true)
    (h2 : p.gotReq2 = false) (hr : p.req = s.regs.req) (hx : p.reqIdx = s.regs.reqIdx)
    (hr2 : p.req2 = s.regs.req2) (hs : p.state = .active) (hc : p.cacheIdx = p.reqIdx)
    (ht : p.cacheTag = g.l1Tag p.req.line)
    (hu : p.req.cached = true → (p.isRetry || p.didReload) = true)
    (hw : CoreReq.storeOp p.req.op = true → (p.isRetry || p.didReload) = true →
      p.lastWr = true) : Ordered g s p s.arr where
  req2 := hr2 ▸ hp.req2
  req := by
    rw [hr, hx]
    exact hp.req
  got _ := ⟨hs, rfl, hc, ht⟩
  lastWr _ := h1
  retry _ := hu
  writes _ := hw
  fresh _ h := absurd (hp.lastWr h) (by simp [hg])
  got2 h := absurd h (by simp [h2])
  fresh2 h := absurd h (by simp [h2])
  look _ := rfl
  state := by simp [hs]
  ret h := absurd h (by simp [hs])
  uncached h := by simp [behind, hs] at h

theorem l1Succ_ne (h : s.regs.cacheIdx ≠ g.l1Sets - 1) :
    l1Succ g s.regs.cacheIdx ≠ s.regs.cacheIdx := by
  have hpos := g.l1Sets_pos
  have hlt : l1Succ g s.regs.cacheIdx < g.l1Sets := Nat.mod_lt _ hpos
  intro he
  rw [he] at hlt
  rw [l1Succ, Nat.mod_eq_of_lt (by omega)] at he
  omega

/-- A set that is not the one on port 1 keeps its contents. -/
theorem dropCur_of_ne {j : Nat} (h : j ≠ s.regs.cacheIdx) : s.dropCur j = s.arr j :=
  Function.update_of_ne h _ _

/-- The request that starts a fill from port 2 is a load. -/
theorem Pipe.remapped (hp : Pipe g s) (hst : s.regs.req2.isStore = false)
    (hb : s.regs.req2.badAddr = false) (hc : s.regs.req2.commit = false) :
    Kind (remappedReq2 g s i) := by
  have ho : CoreReq.storeOp s.regs.req2.op = false := by
    have := hp.req2.isStore
    rw [hst] at this
    simp only [Bool.false_eq, Bool.or_eq_false_iff] at this
    exact this.1
  refine ⟨hp.req2.isStore, (aligned_congr rfl rfl).mp (hp.req2.aligned hb), fun h => ?_,
    fun h => ?_⟩
  · exact absurd h (by simp [remappedReq2, ho])
  · exact absurd h (by simp [remappedReq2, hc])

theorem prbOkState_probed {r : Regs} (h : prbOkState r = true) :
    probed r.state = true ∧ (r.state = .uncacheWb → r.uncacheWbDirty = true) := by
  unfold prbOkState at h
  cases hs : r.state <;> simp [hs, probed] at h ⊢
  exact h

/-- A clock edge leaves the registers in order. -/
theorem ordered_step (hp : Pipe g s) (hok : i.coreReq.Ok) (h : Step g s i p a) :
    Ordered g s p a := by
  cases h with
  | init | initCacheLast | uncacheDone | flushClClean | flushClDone | flushPgLast
  | flushCleanLast | flushLast | chopWb | chopInvl | victim | fetch | flushClInvl | flushClWb
  | flushPgWb | flushPgDrop => exact .of_plain hp rfl rfl rfl rfl rfl rfl rfl rfl
  | initCache hs | stall hs => exact .of_plain hp hs rfl rfl rfl rfl rfl rfl rfl
  | uncachedSend =>
    refine .of_plain hp rfl ?_ rfl rfl rfl rfl rfl rfl
    split <;> rfl
  | flushDirty hs hd t ht =>
    refine .of_plain hp ht ?_ rfl rfl rfl rfl rfl rfl
    split <;> rfl
  | reload hs hr t ht =>
    rcases ht with rfl | ⟨rfl, -⟩
    · exact .of_plain hp rfl rfl rfl rfl rfl rfl rfl rfl
    · exact .of_plain hp rfl rfl rfl rfl rfl rfl rfl rfl
  | run hs _ f hf b =>
    refine (Ordered.fire hp hs hf fun _ _ => rfl).accept hok b (fun _ => ?_) fun _ _ _ _ => rfl
    cases f <;> exact .inl hs
  | store hs hg hw hc ho _ f hf b =>
    have hl : s.regs.lastWr = true := hp.writes hg ho (hp.retry hg hc)
    refine (Ordered.fire hp hs hf fun j hj => ?_).accept hok b (fun _ => ?_) fun _ _ h => ?_
    · rw [Function.update_of_ne (hj hl).symm]
    · cases f <;> exact .inl hs
    · exact absurd h (by simp [hl])
  | directFill hs hg hf hq hb hc hv hm =>
    obtain ⟨-, -, -, -, -, -, -, -, -, hst, -⟩ := directFillOk_iff hf
    exact
      { req2 := hp.req2
        req := ⟨placed_remap _ _, hp.remapped hst hb hc⟩
        got := nofun
        lastWr := nofun
        retry := nofun
        writes := nofun
        fresh := nofun
        got2 := nofun
        fresh2 := nofun
        look := nofun
        state := nofun
        ret := nofun
        uncached := nofun }
  | uncachedEvict hs hg hc | uncachedDrop hs hg hc =>
    exact .of_quiet hp rfl rfl rfl rfl rfl rfl ⟨nofun, nofun⟩ nofun fun _ => hc
  | startCache | startCl | startDma =>
    exact .of_looks hp rfl (by simp) rfl rfl rfl rfl rfl rfl rfl
  | startPg => exact .of_looks hp rfl (by simp) rfl rfl rfl rfl rfl rfl rfl
  | flushPgNext => exact .of_looks hp rfl (by simp) rfl rfl rfl rfl rfl rfl rfl
  | flushNext => exact .of_looks hp rfl (by simp) rfl rfl rfl rfl rfl rfl rfl
  | flushClean hs hd hx =>
    refine .of_looks hp hs (by simp) rfl rfl rfl rfl rfl rfl ?_
    exact (dropCur_of_ne (l1Succ_ne hx)).symm
  | takeProbe h1 h2 h3 h4 h5 =>
    obtain ⟨hpr, hud⟩ := prbOkState_probed h5
    exact
      { req2 := hp.req2
        req := hp.req
        got := nofun
        lastWr := nofun
        retry := nofun
        writes := nofun
        fresh := nofun
        got2 := nofun
        fresh2 := nofun
        look := fun _ => rfl
        state := nofun
        ret := fun _ => ⟨hpr, hud⟩
        uncached := fun h => hp.uncached (by
          rw [behind, if_neg]
          · exact h
          · intro hs
            simp [hs, probed] at hpr) }
  | probeChk hs =>
    obtain ⟨hpr, hud⟩ := hp.ret hs
    refine .of_quiet hp rfl rfl rfl rfl rfl rfl ⟨fun h => ?_, fun h => ?_⟩ (fun h => ?_) fun h => ?_
    · exact absurd hpr (by rw [show s.regs.prbRet = _ from h]; simp [probed])
    · exact absurd hpr (by rw [show s.regs.prbRet = _ from h]; simp [probed])
    · have h' : looks s.regs.prbRet = true := h
      cases hr : s.regs.prbRet <;> simp [hr, looks, probed] at h' hpr
    · refine hp.uncached ?_
      rw [behind, if_pos hs]
      exact h
  | wait hs hr b hb hs' =>
    refine Ordered.accept (.of_quiet hp rfl rfl rfl rfl rfl rfl ?_ (fun _ => rfl) fun h => ?_) hok b
      (fun h => .inr (hs' h)) fun h h' => absurd h' ?_
    · constructor
      · exact hp.state
      · intro h
        have h' : s.regs.state = .probeChk := h
        simp [h', waiting] at hs
    · refine hp.uncached ?_
      have h' : s.regs.state = .uncacheWb := h
      rw [behind, if_neg (by simp [h'])]
      exact h'
    · intro h''
      have h' : s.regs.state = .active := h''
      exact absurd (hs' h) (by simp [h'])
  | handleReload hs =>
    refine .of_refire hp (hp.gotReq_of (by simp [hs])) rfl rfl rfl rfl rfl rfl rfl rfl
      (fun _ => by simp) fun ho _ => ?_
    have hk := hp.req.2.isStore
    have ho' : CoreReq.storeOp s.regs.req.op = true := ho
    rw [ho', Bool.true_or] at hk
    exact hk
  | uncacheWbDone hs =>
    have hu : s.regs.req.cached = false := by
      refine hp.uncached ?_
      rw [behind, if_neg (by simp [hs]), hs]
    refine .of_refire hp (hp.gotReq_of (by simp [hs])) rfl rfl rfl rfl rfl rfl rfl rfl
      (fun h => ?_) fun _ h => absurd h (by simp [Proto.refire, Proto.tick])
    exact absurd hu (by rw [show s.regs.req.cached = true from h]; simp)

end Registers

/-- A clock edge keeps the pipes in order. -/
theorem pipe_next (hp : Pipe g s) (hok : i.coreReq.Ok)
    (he : i.memRspValid = true → Expects s.regs) : Pipe g (s.next g i) := by
  have ho := ordered_step hp hok (step_next hp he)
  exact
    { mq := hp.mq_next
      sb := hp.sb_next
      req2 := ho.req2
      req := ho.req
      got := ho.got
      lastWr := ho.lastWr
      retry := ho.retry
      writes := ho.writes
      fresh := fun h => by
        rw [justWritten, next_rrCacheIdx, next_rrLastWr]
        cases hw : s.regs.lastWr
        · simp
        · have hn : s.regs.cacheIdx ≠ (s.next g i).regs.cacheIdx := ho.fresh h hw
          simp [hn]
      forward := by
        change ((comb g s i).popMq && s.regs.gotReq && s.regs.lastWr &&
          (s.mq.head?.map fun e => s.regs.cacheIdx == e.idx).getD false) = false
        by_cases h : ((comb g s i).popMq && s.regs.gotReq && s.regs.lastWr) = true
        · have h' := h
          simp only [Bool.and_eq_true] at h'
          have hn := popMq_head h'.1.1 h'.1.2 h'.2 (hp.got h'.1.2).1
          cases hm : s.mq.head? with
          | none => simp
          | some e => simp [hn e (by simp [hm])]
        · simp [h]
      got2 := ho.got2
      fresh2 := fun h1 h2 h3 => ho.fresh2 h1 h2 (next_rrLastWr (g := g) (i := i) ▸ h3)
      look := fun h => ho.look (by
        rcases h with h | h | h | h
        all_goals
          rw [show (s.next g i).regs.proto.state = _ from h]
          rfl)
      state := ho.state
      ret := ho.ret
      uncached := ho.uncached }

theorem blankReq_ok : blankReq.Ok := ⟨fun _ => trivial, rfl, nofun⟩

theorem blankReq_kind : Kind blankReq := ⟨rfl, trivial, nofun, nofun⟩

theorem blankSlot_ok : SlotOk g blankSlot where
  placed := ⟨rfl, g.l1Sets_pos⟩
  storeOp := rfl
  aligned q ho _ := by
    rw [CoreReq.Aligned, ho]
    trivial

/-- Reset puts the pipes in order. -/
theorem pipe_reset (tag : Nat → Nat) (data : Nat → Line) : Pipe g (reset tag data) where
  mq e he := by simp [reset] at he
  sb _ := blankSlot_ok
  req2 := blankReq_ok
  req := ⟨⟨rfl, g.l1Sets_pos⟩, blankReq_kind⟩
  got h := by simp [reset, resetRegs] at h
  lastWr h := by simp [reset, resetRegs] at h
  retry h := by simp [reset, resetRegs] at h
  writes h := by simp [reset, resetRegs] at h
  fresh h := by simp [reset, resetRegs] at h
  forward := rfl
  got2 h := by simp [reset, resetRegs] at h
  fresh2 h := by simp [reset, resetRegs] at h
  look h := by simp [reset, resetRegs] at h
  state := by simp [reset, resetRegs]
  ret h := by simp [reset, resetRegs] at h
  uncached h := by simp [reset, resetRegs, behind] at h

end L1d

end R9999
