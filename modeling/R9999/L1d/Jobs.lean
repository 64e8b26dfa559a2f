import R9999.L1d.Request

/-!
# The flush operations of the L1D

The line, page and whole-cache operations of the core and the invalidates of the DMA
engine are latched, started when the L1D has drained, and end with a completion pulse.
`Job` says which operation of the core the L1D is working on; `job_step` lists what a
clock edge can do to it, and `dma_step` follows an invalidate of the DMA engine.
-/

namespace R9999

namespace L1d

variable {g : Geometry} {s : L1d} {i : Input} {p : Proto} {a : Nat → L1dEntry}

/-- The operation of the core the L1D works on. -/
inductive Job where
  | none | init | line | whole
  deriving DecidableEq

/-- The job of a state. -/
def jobOf (t : State) (dma chop : Bool) : Job :=
  match t with
  | .init | .initCache => .init
  | .flushCl => if dma then .none else .line
  | .flushClWait => if dma || chop then .none else .line
  | .flushPg | .flushPgWait => .line
  | .flushCache | .flushCacheWait | .flushCacheLastWait => .whole
  | _ => .none

/-- The job of the registers. -/
def Proto.job (p : Proto) : Job := jobOf p.behind p.clIsDma p.chopWait

/-- The marks of a DMA invalidate and of a CACHE op stand only in their states. -/
structure Marks (p : Proto) : Prop where
  dma : p.clIsDma = true → p.behind = .flushCl ∨ p.behind = .flushClWait
  chop : p.chopWait = true → p.behind = .flushClWait ∧ p.clIsDma = false

/-- What a clock edge does to the core's operation `j`. -/
inductive JobStep (s : L1d) (i : Input) (j : Job) (p : Proto) : Prop
  | keep (hp : p.pend = s.regs.pend.latch i) (hj : p.job = j) (hf : p.flushComplete = false)
  | startCache (h0 : j = .none) (hc : s.regs.pend.cache = true) (hd : drained s i = true)
      (hs : s.regs.state = .active) (hg : p.gotReq = false) (hg2 : p.gotReq2 = false)
      (hp : p.pend = { s.regs.pend.latch i with cache := false }) (hj : p.job = .whole)
      (hf : p.flushComplete = false)
  | startCl (h0 : j = .none) (hc : s.regs.pend.cl = true)
      (hp : p.pend = { s.regs.pend.latch i with cl := false }) (hj : p.job = .line)
      (hf : p.flushComplete = false)
  | startPg (h0 : j = .none) (hc : s.regs.pend.pg = true)
      (hp : p.pend = { s.regs.pend.latch i with pg := false }) (hj : p.job = .line)
      (hf : p.flushComplete = false)
  | startDma (h0 : j = .none) (hc : s.regs.pend.dma = true)
      (hp : p.pend = { s.regs.pend.latch i with dma := false }) (hj : p.job = .none)
      (hf : p.flushComplete = false)
  | finish (h0 : j ≠ .none) (hp : p.pend = s.regs.pend.latch i) (hj : p.job = .none)
      (hf : p.flushComplete = true)

theorem Proto.job_eq {t : State} (hs : p.state = t) (ht : t ≠ .probeChk) :
    p.job = jobOf t p.clIsDma p.chopWait := by
  rw [Proto.job, Proto.behind_eq hs ht]

theorem behind_probeChk (hp : Pipe g s) (h : Step g s i p a) (hs : s.regs.state = .probeChk) :
    p.behind = s.regs.proto.behind := by
  have hb : s.regs.proto.behind = s.regs.prbRet := by
    rw [Proto.behind, L1d.behind, if_pos (show s.regs.proto.state = _ from hs)]
    rfl
  obtain ⟨-, -, hn⟩ := probeChk_step h hp hs
  rw [Proto.behind_of_ne hn, hb]
  cases h with
  | probeChk => rfl
  | wait hw => simp [hs, waiting] at hw
  | takeProbe _ _ _ _ ho => simp [prbOkState, hs] at ho
  | uncacheDone hw => simp [hs] at hw
  | _ hs' => simp [hs] at hs'

section Marks

variable (hm : Marks s.regs.proto)

include hm in
/-- Outside their states the marks are down. -/
theorem Marks.down {t : State} (hs : s.regs.state = t) (h1 : t ≠ .flushCl)
    (h2 : t ≠ .flushClWait) (h3 : t ≠ .probeChk) :
    s.regs.clIsDma = false ∧ s.regs.chopWait = false := by
  have hb : s.regs.proto.behind = t := Proto.behind_eq hs h3
  constructor
  · cases hd : s.regs.clIsDma
    · rfl
    · rcases hm.dma hd with h' | h'
      · exact absurd (hb.symm.trans h') h1
      · exact absurd (hb.symm.trans h') h2
  · cases hd : s.regs.chopWait
    · rfl
    · exact absurd (hb.symm.trans (hm.chop hd).1) h2

include hm in
theorem Marks.noChop (hs : s.regs.state = .flushCl) : s.regs.chopWait = false := by
  have hb : s.regs.proto.behind = .flushCl := Proto.behind_eq (p := s.regs.proto) hs (by decide)
  cases hc : s.regs.chopWait
  · rfl
  · exact absurd (hb.symm.trans (hm.chop hc).1) (by decide)

theorem Marks.of_down (h1 : p.clIsDma = false) (h2 : p.chopWait = false) : Marks p :=
  ⟨fun h => absurd h (by simp [h1]), fun h => absurd h (by simp [h2])⟩

theorem Marks.of_same (hm : Marks s.regs.proto) (hb : p.behind = s.regs.proto.behind)
    (h1 : p.clIsDma = s.regs.clIsDma) (h2 : p.chopWait = s.regs.chopWait) : Marks p := by
  refine ⟨fun h => ?_, fun h => ?_⟩
  · rw [hb]
    exact hm.dma (h1.symm.trans h)
  · rw [hb, h1]
    exact hm.chop (h2.symm.trans h)

/-- The state a probe interrupts is the one it returns to. -/
theorem behind_takeProbe (ho : prbOkState s.regs = true) :
    s.regs.proto.behind = s.regs.state := by
  refine Proto.behind_of_ne (p := s.regs.proto) fun hs => ?_
  have hs' : s.regs.state = .probeChk := hs
  simp [prbOkState, hs'] at ho

include hm in
theorem marks_step (h : Step g s i p a) (hp : Pipe g s) : Marks p := by
  have hst := h
  cases h with
  | init hs | initCache hs | initCacheLast hs | stall hs | directFill hs | uncachedEvict hs
  | uncachedDrop hs | uncachedSend hs | victim hs | fetch hs | startCache hs | startPg hs
  | reload hs | handleReload hs | uncacheWbDone hs | flushPgWb hs | flushPgDrop hs
  | flushPgNext hs | flushPgLast hs | flushDirty hs | flushClean hs | flushCleanLast hs
  | flushNext hs | flushLast hs =>
    obtain ⟨h1, h2⟩ := hm.down hs (by decide) (by decide) (by decide)
    exact .of_down h1 h2
  | startCl hs =>
    obtain ⟨h1, h2⟩ := hm.down hs (by decide) (by decide) (by decide)
    exact .of_down rfl h2
  | run hs _ f _ b | store hs _ _ _ _ _ f _ b =>
    obtain ⟨h1, h2⟩ := hm.down hs (by decide) (by decide) (by decide)
    cases f <;> cases b <;> exact .of_down h1 h2
  | chopWb hs | chopInvl hs =>
    obtain ⟨h1, -⟩ := hm.down hs (by decide) (by decide) (by decide)
    exact ⟨fun h => absurd (h1.symm.trans h) (by decide), fun _ => ⟨rfl, h1⟩⟩
  | startDma hs =>
    obtain ⟨-, h2⟩ := hm.down hs (by decide) (by decide) (by decide)
    exact ⟨fun _ => .inl rfl, fun h => absurd (h2.symm.trans h) (by decide)⟩
  | takeProbe _ _ _ _ ho => exact .of_same hm (behind_takeProbe ho).symm (by rfl) (by rfl)
  | probeChk hs => exact .of_same hm (behind_probeChk hp hst hs) (by rfl) (by rfl)
  | wait _ _ b => cases b <;> exact .of_same hm (by rfl) (by rfl) (by rfl)
  | uncacheDone hs =>
    rcases hs with hs | hs
    all_goals
      obtain ⟨h1, h2⟩ := hm.down hs (by decide) (by decide) (by decide)
      exact .of_down h1 h2
  | flushClInvl hs | flushClWb hs =>
    exact ⟨fun _ => .inr rfl, fun h => absurd ((hm.noChop hs).symm.trans h) (by decide)⟩
  | flushClClean hs hd hv => exact .of_down ((Bool.or_eq_false_iff).mp hv).1 (hm.noChop hs)
  | flushClDone hs _ a f d _ hd => exact .of_down hd rfl

/-- What a clock edge does to the operation of the core. -/
theorem job_step (h : Step g s i p a) (hp : Pipe g s) (hm : Marks s.regs.proto) :
    JobStep s i s.regs.proto.job p := by
  have hst := h
  have hj : ∀ {t}, s.regs.state = t → t ≠ .probeChk →
      s.regs.proto.job = jobOf t s.regs.clIsDma s.regs.chopWait :=
    fun hs ht => Proto.job_eq (p := s.regs.proto) hs ht
  cases h with
  | init hs => exact .keep rfl (hj hs (by decide)).symm rfl
  | initCache hs =>
    refine .keep rfl ?_ rfl
    rw [hj hs (by decide)]
    exact Proto.job_eq hs (by decide)
  | initCacheLast hs =>
    refine .finish ?_ rfl rfl rfl
    rw [hj hs (by decide)]
    exact (fun h => by cases h)
  | run hs _ f _ b | store hs _ _ _ _ _ f _ b =>
    rw [hj hs (by decide)]
    cases f <;> cases b <;> exact .keep rfl (Proto.job_eq (t := .active) hs (by decide)) rfl
  | stall hs =>
    rw [hj hs (by decide)]
    exact .keep rfl (Proto.job_eq (t := .active) hs (by decide)) rfl
  | directFill hs | uncachedEvict hs | uncachedDrop hs | victim hs | fetch hs | handleReload hs
  | uncacheWbDone hs =>
    rw [hj hs (by decide)]
    exact .keep rfl rfl rfl
  | uncachedSend hs =>
    rw [hj hs (by decide)]
    refine .keep rfl ?_ rfl
    cases hst' : s.regs.req.isStore
    all_goals
      simp only [Proto.send, Bool.false_eq_true, if_false, if_true]
      rfl
  | uncacheDone hs =>
    rcases hs with hs | hs
    all_goals
      rw [hj hs (by decide)]
      exact .keep rfl rfl rfl
  | reload hs _ t ht =>
    rw [hj hs (by decide)]
    rcases ht with rfl | ⟨rfl, -⟩ <;> exact .keep rfl rfl rfl
  | chopWb hs | chopInvl hs =>
    rw [hj hs (by decide)]
    refine .keep rfl ?_ rfl
    rw [Proto.job_eq (t := .flushClWait) rfl (by decide)]
    change (if _ || true then Job.none else Job.line) = Job.none
    rw [Bool.or_true]
    rfl
  | startCache hs hd hc =>
    rw [hj hs (by decide)]
    exact .startCache rfl hc hd hs rfl rfl rfl rfl rfl
  | startCl hs hd hc =>
    rw [hj hs (by decide)]
    exact .startCl rfl hc rfl rfl rfl
  | startPg hs hd hc =>
    rw [hj hs (by decide)]
    exact .startPg rfl hc rfl rfl rfl
  | startDma hs hd hc =>
    rw [hj hs (by decide)]
    exact .startDma rfl hc rfl rfl rfl
  | takeProbe _ _ _ _ ho =>
    refine .keep rfl ?_ rfl
    rw [Proto.job, Proto.job, behind_takeProbe ho]
    rfl
  | probeChk hs =>
    refine .keep rfl ?_ rfl
    rw [Proto.job, Proto.job, behind_probeChk hp hst hs]
    rfl
  | wait _ _ b => cases b <;> exact .keep rfl rfl rfl
  | flushClInvl hs | flushClWb hs =>
    refine .keep rfl ?_ rfl
    rw [hj hs (by decide), Proto.job_eq (t := .flushClWait) rfl (by decide)]
    change (if s.regs.clIsDma || s.regs.chopWait then Job.none else Job.line) =
      if s.regs.clIsDma then Job.none else Job.line
    rw [hm.noChop hs, Bool.or_false]
  | flushClClean hs hd hv =>
    refine .finish ?_ rfl rfl rfl
    rw [hj hs (by decide), jobOf, ((Bool.or_eq_false_iff).mp hv).1]
    exact (fun h => by cases h)
  | flushClDone hs hr a f d ha hd hf =>
    have h0 := hj hs (by decide)
    cases hfc : (s.regs.clIsDma || s.regs.chopWait) with
    | true =>
      have hf' : f = false := by
        rw [hf]
        revert hfc
        cases s.regs.clIsDma <;> cases s.regs.chopWait <;> simp
      subst hf'
      refine .keep rfl ?_ rfl
      rw [h0, jobOf, hfc]
      rfl
    | false =>
      rw [Bool.or_eq_false_iff] at hfc
      have hf' : f = true := by
        rw [hf, hfc.1, hfc.2]
        rfl
      subst hf'
      refine .finish ?_ rfl rfl rfl
      rw [h0, jobOf, hfc.1, hfc.2]
      exact (fun h => by cases h)
  | flushPgWb hs | flushPgDrop hs | flushPgNext hs =>
    rw [hj hs (by decide)]
    exact .keep rfl rfl rfl
  | flushDirty hs hd t ht =>
    rw [hj hs (by decide)]
    split at ht <;> (subst ht; exact .keep rfl rfl rfl)
  | flushClean hs =>
    rw [hj hs (by decide)]
    exact .keep rfl (Proto.job_eq (t := .flushCache) hs (by decide)) rfl
  | flushNext hs =>
    rw [hj hs (by decide)]
    exact .keep rfl rfl rfl
  | flushPgLast hs | flushCleanLast hs | flushLast hs =>
    refine .finish ?_ rfl rfl rfl
    rw [hj hs (by decide)]
    exact (fun h => by cases h)

end Marks

/-- An invalidate of the DMA engine is latched, in work or acknowledged. -/
theorem dma_step (h : Step g s i p a) (hm : Marks s.regs.proto) :
    p.pend.dma.toNat + p.clIsDma.toNat + p.dmaInvalAck.toNat =
      (s.regs.pend.latch i).dma.toNat + s.regs.clIsDma.toNat := by
  cases h with
  | startDma hs _ hc =>
    obtain ⟨h1, -⟩ := hm.down hs (by decide) (by decide) (by decide)
    rw [h1, FlushPend.latch, hc]
    rfl
  | startCl hs =>
    obtain ⟨h1, -⟩ := hm.down hs (by decide) (by decide) (by decide)
    rw [h1]
    rfl
  | flushClDone _ _ b f d hb hd =>
    subst hb hd
    change _ + 0 + _ = _
    rfl
  | run _ _ f _ b | store _ _ _ _ _ _ f _ b => cases f <;> cases b <;> rfl
  | wait _ _ b => cases b <;> rfl
  | _ => rfl

/-- A flush of a line or a page starts at the set of its line. -/
theorem aimed_step (h : Step g s i p a) (hp : Pipe g s) :
    (p.state = .flushCl →
      p.clIsDma = false ∧ s.regs.pend.cl = true ∧ p.cacheIdx = g.l1Idx i.flushClAddr ∨
        p.clIsDma = true ∧ s.regs.pend.dma = true ∧ p.cacheIdx = g.l1Idx i.dmaInvalAddr) ∧
      (p.state = .flushPg → (s.regs.pend.pg = true ∨ s.regs.proto.job = .line) ∧
        p.cacheIdx = g.l1Idx (i.flushClAddr / g.pgLines * g.pgLines + p.pgOff)) := by
  cases h with
  | startCl _ _ hc => exact ⟨fun _ => .inl ⟨rfl, hc, rfl⟩, (fun h => by cases h)⟩
  | startDma _ _ hc => exact ⟨fun _ => .inr ⟨rfl, hc, rfl⟩, (fun h => by cases h)⟩
  | startPg _ _ hc => exact ⟨(fun h => by cases h), fun _ => ⟨.inl hc, rfl⟩⟩
  | flushPgNext hs =>
    refine ⟨(fun h => by cases h), fun _ => ⟨.inr ?_, rfl⟩⟩
    rw [Proto.job_eq (p := s.regs.proto) hs (by decide)]
    rfl
  | run hs _ f _ b | store hs _ _ _ _ _ f _ b =>
    have hn : (((s.regs.proto.tick i).fire g f).accept g i b).state = .active := by
      cases f <;> cases b <;> exact hs
    rw [hn]
    exact ⟨(fun h => by cases h), (fun h => by cases h)⟩
  | initCache hs | stall hs | flushClean hs =>
    exact ⟨fun h => absurd (hs.symm.trans h) (fun h => by cases h), fun h => absurd (hs.symm.trans h) (fun h => by cases h)⟩
  | uncachedSend =>
    cases hst : s.regs.req.isStore <;> simp [Proto.send]
  | probeChk hs =>
    have hr := (hp.ret hs).1
    refine ⟨fun h => ?_, fun h => ?_⟩
    all_goals
      rw [show s.regs.prbRet = _ from h] at hr
      cases hr
  | wait hs _ b =>
    have hn : ({ s.regs.proto.tick i with cacheIdx := waitIdx s.regs }.accept g i b).state =
        s.regs.state := by
      cases b <;> rfl
    rw [hn]
    rcases hs with hs | ⟨hs, -⟩
    · refine ⟨fun h => ?_, fun h => ?_⟩ <;> simp [h, waiting] at hs
    · rw [hs]
      exact ⟨(fun h => by cases h), (fun h => by cases h)⟩
  | reload _ _ t ht => rcases ht with rfl | ⟨rfl, -⟩ <;> exact ⟨(fun h => by cases h), (fun h => by cases h)⟩
  | flushDirty _ _ t ht => split at ht <;> (subst ht; exact ⟨(fun h => by cases h), (fun h => by cases h)⟩)
  | _ => exact ⟨(fun h => by cases h), (fun h => by cases h)⟩

/-! ## The L1D without requests of the core -/

/-- The states of an L1D that has no request of the core to serve. -/
def calm : State → Bool
  | .init | .initCache | .active | .flushCl | .flushClWait | .flushCache | .flushCacheWait
  | .flushCacheLastWait => true
  | _ => false

/-- No request of the core is inside the L1D. -/
structure Calm (s : L1d) : Prop where
  mq : s.mq = []
  gotReq : s.regs.gotReq = false
  gotReq2 : s.regs.gotReq2 = false
  state : calm s.regs.proto.behind = true

theorem mq_next_nil (h : Calm s) : (s.next g i).mq = [] := by
  have hk : (comb g s i).pushMiss = (port2 g s i (combDefault s i)).pushMiss :=
    congrArg (·.1) kept_comb
  have hp : (comb g s i).pushMiss = false := by
    rw [hk, port2, h.gotReq2]
    rfl
  simp [next, hp, h.mq]

/-- It stays so while the core makes none. -/
theorem Calm.next (hc : Calm s) (h : Step g s i (s.next g i).regs.proto (s.next g i).arr)
    (hp : Pipe g s) (hi : i.coreReqValid = false) (hpg : s.regs.pend.pg = false) :
    Calm (s.next g i) := by
  have key : ∀ {p a}, Step g s i p a → p.gotReq = false ∧ p.gotReq2 = false ∧
      calm p.behind = true := by
    intro p a h
    have hst := h
    have hb : ∀ {t}, s.regs.state = t → t ≠ .probeChk → calm t = true := by
      intro t hs ht
      have := hc.state
      rw [Proto.behind_eq (p := s.regs.proto) hs ht] at this
      exact this
    have hg : ∀ {P : Prop}, s.regs.gotReq = true → P :=
      fun h => absurd h (by simp [hc.gotReq])
    cases h with
    | init | initCacheLast | startCache | startCl | startDma | flushClInvl | flushClWb
    | flushClClean | flushClDone | flushNext | flushLast | flushCleanLast =>
      exact ⟨rfl, rfl, rfl⟩
    | initCache hs | flushClean hs =>
      refine ⟨rfl, rfl, ?_⟩
      rw [Proto.behind_eq hs (by decide)]
      rfl
    | run hs _ f hf b hb' =>
      have hf' : f = none := by
        cases f with
        | none => rfl
        | some e => exact absurd (hf e rfl).1 (by simp [hc.mq])
      have hb'' : b = false := by
        cases b
        · rfl
        · exact absurd (hb' rfl).1 (by simp [hi])
      subst hf' hb''
      refine ⟨rfl, rfl, ?_⟩
      rw [Proto.behind_eq (t := .active) hs (by decide)]
      rfl
    | store _ h' | stall _ h' | chopWb _ h' | chopInvl _ h' | uncachedEvict _ h'
    | uncachedDrop _ h' | uncachedSend _ h' | victim _ h' | fetch _ h' => exact hg h'
    | directFill _ h' => exact absurd h' (by simp [hc.gotReq2])
    | startPg _ _ h' => exact absurd h' (by simp [hpg])
    | takeProbe _ _ _ _ ho =>
      refine ⟨rfl, rfl, ?_⟩
      have := hc.state
      rw [behind_takeProbe ho] at this
      exact this
    | probeChk hs =>
      refine ⟨rfl, rfl, ?_⟩
      rw [behind_probeChk hp hst hs]
      exact hc.state
    | wait _ _ b hb' =>
      have hb'' : b = false := by
        cases b
        · rfl
        · exact absurd (hb' rfl).1 (by simp [hi])
      subst hb''
      exact ⟨rfl, rfl, hc.state⟩
    | uncacheDone hs =>
      rcases hs with hs | hs <;> exact absurd (hb hs (by decide)) (by decide)
    | reload hs | handleReload hs | uncacheWbDone hs | flushPgWb hs | flushPgDrop hs
    | flushPgNext hs | flushPgLast hs => exact absurd (hb hs (by decide)) (by decide)
    | flushDirty _ _ t ht =>
      refine ⟨rfl, rfl, ?_⟩
      split at ht <;> (subst ht; rfl)
  obtain ⟨h1, h2, h3⟩ := key h
  exact ⟨mq_next_nil hc, h1, h2, h3⟩

/-! ## The walk of a whole-cache flush -/

/-- No set is valid. -/
def Empty (a : Nat → L1dEntry) : Prop := ∀ j, (a j).valid = false

/-- An L1D without requests that holds nothing goes on holding nothing. -/
theorem Empty.step (he : Empty s.arr) (h : Act g s i p a) (hc : Calm s) : Empty a := by
  have hup : ∀ k e, e.valid = false → Empty (Function.update s.arr k e) := by
    intro k e h j
    by_cases hj : j = k
    · rw [hj, Function.update_self, h]
    · rw [Function.update_of_ne hj]
      exact he j
  have hst : s.regs.state ≠ .injectReload := by
    intro hs
    have := hc.state
    rw [Proto.behind_eq (p := s.regs.proto) hs (by decide)] at this
    cases this
  cases h with
  | keep ha | request _ ha | victim _ ha => exact ha ▸ he
  | store _ hg => exact absurd hg (by simp [hc.gotReq])
  | drop j e h1 _ _ ha => exact ha ▸ hup j e h1
  | probe _ _ ha =>
    rw [ha]
    split
    · exact hup _ _ rfl
    · exact he
  | evict _ e h1 _ ha => exact ha ▸ hup _ e h1
  | discard _ _ _ _ hk =>
    intro j
    rcases hk j with h | h
    · rw [h]
      exact he j
    · rw [h]
      rfl
  | fill hs => exact absurd hs hst
  | taken hs => exact absurd hs hst

/-- The set the walk has reached: a probe saves it. -/
def Proto.walkIdx (p : Proto) : Nat := if p.state = .probeChk then p.prbSave else p.cacheIdx

/-- The sets the walk has passed are empty. -/
def Walked (g : Geometry) (p : Proto) (a : Nat → L1dEntry) : Prop :=
  match p.behind with
  | .flushCache | .flushCacheWait => p.walkIdx < g.l1Sets ∧ ∀ j, j < p.walkIdx → (a j).valid = false
  | .flushCacheLastWait => ∀ j, j < g.l1Sets → (a j).valid = false
  | _ => True

theorem walked_of_job (h : p.job ≠ .whole) : Walked g p a := by
  unfold Walked
  cases hb : p.behind <;> first | trivial | exact absurd (by rw [Proto.job, hb]; rfl) h

theorem walked_at {t : State} (hs : p.state = t) (ht : t = .flushCache ∨ t = .flushCacheWait) :
    Walked g p a ↔ p.cacheIdx < g.l1Sets ∧ ∀ j, j < p.cacheIdx → (a j).valid = false := by
  have hn : p.state ≠ .probeChk := by
    rw [hs]
    rcases ht with rfl | rfl <;> decide
  have hb : p.behind = t := Proto.behind_eq hs (hs ▸ hn)
  rw [Walked, hb, Proto.walkIdx, if_neg hn]
  rcases ht with rfl | rfl <;> rfl

/-- Dropping sets keeps the passed ones empty. -/
theorem Walked.drop {p' : Proto} (h : Walked g p a) (hb : p'.behind = p.behind)
    (hx : p.behind = .flushCache ∨ p.behind = .flushCacheWait → p'.walkIdx = p.walkIdx)
    {a' : Nat → L1dEntry} (ha : ∀ j, a' j = a j ∨ a' j = dropEntry (a j)) : Walked g p' a' := by
  have hv : ∀ j, (a j).valid = false → (a' j).valid = false := by
    intro j hj
    rcases ha j with h' | h' <;> simp [h', dropEntry, hj]
  unfold Walked at h ⊢
  rw [hb]
  cases hbs : p.behind with
  | flushCache | flushCacheWait =>
    rw [hbs] at h
    have hx' := hx (by simp [hbs])
    exact ⟨hx' ▸ h.1, fun j hj => hv j (h.2 j (hx' ▸ hj))⟩
  | flushCacheLastWait =>
    rw [hbs] at h
    exact fun j hj => hv j (h j hj)
  | _ => trivial

/-- One more set is passed. -/
theorem dropCur_walked (hw : s.regs.cacheIdx < g.l1Sets ∧
      ∀ j, j < s.regs.cacheIdx → (s.arr j).valid = false) :
    ∀ j, j < s.regs.cacheIdx + 1 → (s.dropCur j).valid = false := by
  intro j hj
  by_cases he : j = s.regs.cacheIdx
  · rw [he]
    exact dropCur_self
  · rw [dropCur_of_ne he]
    exact hw.2 j (by omega)

/-- The walk goes over the sets in order, and ends with an empty cache. -/
theorem walked_step (h : Step g s i p a) (hp : Pipe g s)
    (hw : Walked g s.regs.proto s.arr) :
    Walked g p a ∧ (s.regs.proto.job = .whole → p.flushComplete = true →
      ∀ j, j < g.l1Sets → (a j).valid = false) := by
  have hst := h
  have hsucc : ∀ {x}, x < g.l1Sets → x ≠ g.l1Sets - 1 → l1Succ g x = x + 1 := by
    intro x h1 h2
    rw [l1Succ, Nat.mod_eq_of_lt (by omega)]
  have hat : ∀ {t}, s.regs.state = t → t = .flushCache ∨ t = .flushCacheWait →
      s.regs.cacheIdx < g.l1Sets ∧ ∀ j, j < s.regs.cacheIdx → (s.arr j).valid = false :=
    fun hs ht => (walked_at (p := s.regs.proto) hs ht).mp hw
  have hjob : ∀ {t}, s.regs.state = t → t ≠ .probeChk → jobOf t s.regs.clIsDma s.regs.chopWait ≠ .whole →
      s.regs.proto.job = .whole → ∀ {P : Prop}, P := by
    intro t hs ht hn hj
    rw [Proto.job_eq (p := s.regs.proto) hs ht] at hj
    exact absurd hj hn
  cases h with
  | startCache hs =>
    refine ⟨(walked_at (t := .flushCache) rfl (by simp)).mpr ⟨g.l1Sets_pos, ?_⟩, (fun _ h => by cases h)⟩
    intro j hj
    exact absurd hj (Nat.not_lt_zero j)
  | takeProbe _ _ _ _ ho =>
    have hb := behind_takeProbe ho
    refine ⟨hw.drop (by exact hb.symm) (fun hs => ?_) fun j => .inl rfl, (fun _ h => by cases h)⟩
    rw [hb] at hs
    have hn : s.regs.proto.state ≠ .probeChk := by
      intro hs'
      have hs'' : s.regs.state = .probeChk := hs'
      simp [hs''] at hs
    rw [Proto.walkIdx, Proto.walkIdx, if_neg hn, if_pos rfl]
    rcases hs with hs | hs
    · simp [prbOkState, hs] at ho
    · change waitIdx s.regs = s.regs.cacheIdx
      rw [waitIdx, hs]
  | probeChk hs hit =>
    refine ⟨hw.drop (behind_probeChk hp hst hs) (fun _ => ?_) (drop_or_keep hit), (fun _ h => by cases h)⟩
    obtain ⟨-, -, hn⟩ := probeChk_step hst hp hs
    rw [Proto.walkIdx, Proto.walkIdx, if_neg hn, if_pos (show s.regs.proto.state = _ from hs)]
    rfl
  | wait hs hr b =>
    have hn : s.regs.state ≠ .probeChk := by
      intro hs'
      simp [hs', waiting] at hs
    have hx : s.regs.proto.behind = .flushCache ∨ s.regs.proto.behind = .flushCacheWait →
        waitIdx s.regs = s.regs.proto.walkIdx := by
      intro hb
      rw [Proto.behind_of_ne (p := s.regs.proto) hn] at hb
      rw [Proto.walkIdx, if_neg (show s.regs.proto.state ≠ _ from hn)]
      have hb' : s.regs.state = .flushCache ∨ s.regs.state = .flushCacheWait := hb
      rcases hb' with hb' | hb'
      · simp [hb', waiting] at hs
      · rw [waitIdx, hb']
        rfl
    cases b
    all_goals
      refine ⟨hw.drop (by rfl) (fun hb => ?_) fun j => .inl rfl, (fun _ h => by cases h)⟩
      rw [← hx hb, Proto.walkIdx, if_neg]
      · rfl
      · exact hn
  | flushDirty hs hd t ht =>
    have hw' := hat hs (by simp)
    refine ⟨?_, (fun _ h => by cases h)⟩
    split at ht
    case isTrue hx =>
      subst ht
      intro j hj
      exact dropCur_walked hw' j (by omega)
    case isFalse hx =>
      subst ht
      refine (walked_at (t := .flushCacheWait) rfl (by simp)).mpr ?_
      change l1Succ g s.regs.cacheIdx < g.l1Sets ∧
        ∀ j, j < l1Succ g s.regs.cacheIdx → (s.dropCur j).valid = false
      rw [hsucc hw'.1 hx]
      exact ⟨by have := hw'.1; omega, dropCur_walked hw'⟩
  | flushClean hs hd hx =>
    have hw' := hat hs (by simp)
    refine ⟨(walked_at (t := .flushCache) hs (by simp)).mpr ?_, (fun _ h => by cases h)⟩
    change l1Succ g s.regs.cacheIdx < g.l1Sets ∧
      ∀ j, j < l1Succ g s.regs.cacheIdx → (s.dropCur j).valid = false
    rw [hsucc hw'.1 hx]
    exact ⟨by have := hw'.1; omega, dropCur_walked hw'⟩
  | flushCleanLast hs hd hx =>
    have hw' := hat hs (by simp)
    refine ⟨trivial, fun _ _ j hj => ?_⟩
    exact dropCur_walked hw' j (by omega)
  | flushNext hs =>
    have hw' := hat hs (by simp)
    exact ⟨(walked_at (t := .flushCache) rfl (by simp)).mpr hw', (fun _ h => by cases h)⟩
  | flushLast hs =>
    have hb := Proto.behind_eq (p := s.regs.proto) hs (by decide)
    rw [Walked, hb] at hw
    exact ⟨trivial, fun _ _ => hw⟩
  | initCacheLast hs =>
    exact ⟨trivial, fun hj => hjob hs (by decide) (fun h => by cases h) hj⟩
  | flushClClean hs | flushClDone hs | flushPgLast hs =>
    refine ⟨trivial, fun hj => hjob hs (by decide) ?_ hj⟩
    cases s.regs.clIsDma <;> cases s.regs.chopWait <;> simp [jobOf]
  | init | startCl | startPg | startDma | directFill | uncachedEvict | uncachedDrop | victim
  | fetch | chopWb | chopInvl | handleReload | uncacheDone | uncacheWbDone | flushClInvl
  | flushClWb | flushPgWb | flushPgDrop | flushPgNext => exact ⟨trivial, (fun _ h => by cases h)⟩
  | initCache hs | stall hs =>
    refine ⟨walked_of_job ?_, (fun _ h => by cases h)⟩
    rw [Proto.job_eq hs (by decide)]
    exact (fun h => by cases h)
  | run hs _ f _ b | store hs _ _ _ _ _ f _ b =>
    have hj : (((s.regs.proto.tick i).fire g f).accept g i b).job ≠ .whole := by
      rw [Proto.job_eq (t := .active)]
      · exact (fun h => by cases h)
      · cases f <;> cases b <;> exact hs
      · decide
    refine ⟨walked_of_job hj, ?_⟩
    cases f <;> cases b <;> exact (fun _ h => by cases h)
  | uncachedSend =>
    refine ⟨walked_of_job ?_, (fun _ h => by cases h)⟩
    rw [Proto.job, Proto.behind_of_ne]
    all_goals cases hst' : s.regs.req.isStore <;> simp [Proto.send, jobOf]
  | reload hs _ t ht =>
    refine ⟨walked_of_job ?_, (fun _ h => by cases h)⟩
    rcases ht with rfl | ⟨rfl, -⟩ <;> exact (fun h => by cases h)

end L1d

end R9999
