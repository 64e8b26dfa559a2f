import R9999.Hierarchy.Coherence

/-!
# Cacheable traffic

The coherence results hold of runs that are `Safe`.  Here a condition on the traffic alone is
given that makes a run safe: every request that leaves port 2 of the L1D is cached, and so is
every miss of the L1I (`Cacheable`).  Then the L1D never sends an uncached access, and the L2
never accepts one.
-/

namespace R9999

namespace L1d

variable {g : Geometry} {s : L1d} {i : Input} {p : Proto} {a : Nat → L1dEntry}

/-- The states of an uncached access. -/
def uncaches : State → Bool
  | .injectUncacheStore | .injectUncacheLoad | .uncacheWb => true
  | _ => false

/-- Every request inside the L1D is cached. -/
structure Cached (s : L1d) : Prop where
  mq : ∀ e ∈ s.mq, e.req.cached = true
  got : s.regs.gotReq = true → s.regs.req.cached = true
  /-- The request that a fill is for is looked up again after it. -/
  again : s.regs.proto.behind = .injectReload ∨ s.regs.state = .handleReload →
    s.regs.req.cached = true
  plain : uncaches s.regs.proto.behind = false

/-- The facts of `Cached` about the registers after a clock edge. -/
structure CachedRegs (p : Proto) : Prop where
  got : p.gotReq = true → p.req.cached = true
  again : p.behind = .injectReload ∨ p.state = .handleReload → p.req.cached = true
  plain : uncaches p.behind = false

/-- The states that have no request to look up. -/
def requestless : State → Bool
  | .probeChk | .injectReload | .handleReload => false
  | t => !uncaches t

/-- The steps that leave port 1 empty and go to such a state. -/
theorem CachedRegs.of_state (hg : p.gotReq = false) (ht : requestless p.state = true) :
    CachedRegs p := by
  have hne : p.state ≠ .probeChk := by
    intro hs
    rw [hs] at ht
    cases ht
  have hb := Proto.behind_eq (t := p.state) rfl hne
  refine ⟨fun h => absurd h (by simp [hg]), fun h => ?_, ?_⟩
  · rw [hb] at h
    rcases h with h | h <;> rw [h] at ht <;> cases ht
  · rw [hb]
    cases hs : p.state <;> rw [hs] at ht <;> first | rfl | cases ht

theorem CachedRegs.accept (h : CachedRegs p) (b : Bool) : CachedRegs (p.accept g i b) := by
  cases b <;> exact ⟨h.got, h.again, h.plain⟩

/-- The head of the miss queue enters port 1. -/
theorem Cached.fire (hc : Cached s) (hs : s.regs.state = .active) {f : Option MqEntry}
    (hf : Fires s i f) : CachedRegs ((s.regs.proto.tick i).fire g f) := by
  cases f with
  | none => exact .of_state rfl ((congrArg requestless hs).trans rfl)
  | some e =>
    have he : e.req.cached = true := hc.mq e (List.mem_of_mem_head? (hf e rfl).1)
    exact ⟨fun _ => he, fun _ => he, by
      rw [Proto.behind_eq (t := .active) hs (by decide)]
      rfl⟩

theorem cached_step (h : Step g s i p a) (hp : Pipe g s) (hc : Cached s) : CachedRegs p := by
  have hb : ∀ {t}, s.regs.state = t → t ≠ .probeChk → s.regs.proto.behind = t :=
    fun hs ht => Proto.behind_eq (p := s.regs.proto) hs ht
  have hreq : ∀ {p : Proto}, p.state = .injectReload ∨ p.state = .active →
      p.req.cached = true → CachedRegs p := by
    intro p hs hq
    refine ⟨fun _ => hq, fun _ => hq, ?_⟩
    rcases hs with hs | hs <;> rw [Proto.behind_eq hs (by decide)] <;> rfl
  cases h with
  | run hs _ f hf b | store hs _ _ _ _ _ f hf b => exact (hc.fire hs hf).accept b
  | stall hs | initCache hs | flushClean hs =>
    exact .of_state rfl ((congrArg requestless hs).trans rfl)
  | directFill _ _ hf =>
    have hq : (remappedReq2 g s i).cached = true := by
      simp only [directFillOk, Bool.and_eq_true] at hf
      grind
    exact hreq (.inl rfl) hq
  | victim _ _ hq | fetch _ _ hq => exact hreq (.inl rfl) hq
  | uncachedEvict _ hg hq | uncachedDrop _ hg hq | uncachedSend _ hg hq =>
    exact absurd (hq.symm.trans (hc.got hg)) (by decide)
  | takeProbe _ _ _ _ ho =>
    have hne : s.regs.state ≠ .probeChk := by
      intro hs
      simp [prbOkState, hs] at ho
    have hbe : s.regs.proto.behind = s.regs.state := hb rfl hne
    refine ⟨fun h => absurd h Bool.false_ne_true, fun h => hc.again ?_, ?_⟩
    · rcases h with h | h
      · exact .inl (hbe.trans h)
      · cases h
    · exact hbe ▸ hc.plain
  | probeChk hs =>
    obtain ⟨hr, -⟩ := hp.ret hs
    have hbe : s.regs.proto.behind = s.regs.prbRet := by
      rw [Proto.behind, L1d.behind, if_pos (show s.regs.proto.state = _ from hs)]
      rfl
    have hbe' : ∀ {p : Proto}, p.state = s.regs.prbRet → p.prbRet = s.regs.prbRet →
        p.behind = s.regs.prbRet := by
      intro p h1 h2
      rw [Proto.behind, L1d.behind, h1, h2, ite_self]
    refine ⟨fun h => absurd h Bool.false_ne_true, fun h => hc.again (.inl ?_), ?_⟩
    · rcases h with h | h
      · exact hbe.trans ((hbe' rfl rfl).symm.trans h)
      · have h' : s.regs.prbRet = .handleReload := h
        rw [h'] at hr
        cases hr
    · rw [hbe' rfl rfl, ← hbe]
      exact hc.plain
  | wait hw _ b _ _ =>
    have hne : s.regs.state ≠ .probeChk := by
      intro hs
      simp [hs, waiting] at hw
    have hbe : ∀ {p : Proto}, p.state = s.regs.state → p.behind = s.regs.state :=
      fun h => Proto.behind_eq h hne
    refine CachedRegs.accept ⟨fun h => absurd h Bool.false_ne_true, fun h => hc.again ?_, ?_⟩ b
    · rcases h with h | h
      · exact .inl ((hb rfl hne).trans ((hbe rfl).symm.trans h))
      · exact .inr h
    · rw [hbe rfl, ← hb rfl hne]
      exact hc.plain
  | reload hs _ t ht =>
    have hq := hc.again (.inl (hb hs (by decide)))
    rcases ht with rfl | ⟨rfl, -⟩
    · exact hreq (.inr rfl) hq
    · refine ⟨fun h => absurd h Bool.false_ne_true, fun _ => hq, rfl⟩
  | handleReload hs => exact hreq (.inr rfl) (hc.again (.inr hs))
  | uncacheDone hs =>
    have hpl := hc.plain
    rcases hs with hs | hs <;> rw [hb hs (by decide)] at hpl <;> cases hpl
  | uncacheWbDone hs =>
    have hpl := hc.plain
    rw [hb hs (by decide)] at hpl
    cases hpl
  | flushDirty _ _ t ht =>
    split at ht <;> (subst ht; exact .of_state rfl rfl)
  | _ => exact .of_state rfl rfl

/-- A clock edge keeps every request inside the L1D cached, if the one on port 2 is. -/
theorem cached_next (h : Step g s i (s.next g i).regs.proto (s.next g i).arr) (hp : Pipe g s)
    (hc : Cached s) (hq : s.regs.gotReq2 = true → (mqPush g s i).req.cached = true) :
    Cached (s.next g i) := by
  have hr := cached_step h hp hc
  refine ⟨fun e he => ?_, hr.got, hr.again, hr.plain⟩
  rcases mem_mq_next he with he | ⟨rfl, hg, -⟩
  · exact hc.mq e he
  · exact hq hg

/-- Then an outstanding request is cacheable. -/
theorem Cached.cacheable (hc : Cached s) (hq : Sent g s.regs.proto s.arr)
    (ho : s.regs.proto.out = true) : s.regs.memReq.cacheable = true := by
  have hpl := hc.plain
  unfold Sent at hq
  unfold Proto.out at ho
  cases hb : s.regs.proto.behind <;> simp only [hb] at hq ho hpl
  case injectReload => exact hq.1.1
  case injectUncacheStore | injectUncacheLoad | uncacheWb => cases hpl
  case flushCacheWait | flushCacheLastWait => exact hq.2.1.1
  case flushClWait | flushPgWait =>
    rcases hq with hq | hq
    · exact hq.2.1.1
    · exact hq.2.1.1
  all_goals simp [waiting] at ho

end L1d

namespace Hier

open L2View (accepts)

variable {g : Geometry} {s : Hier} {i : Stim}

/-- The request that leaves port 2 of the L1D in this cycle is cached, and so is a miss of the
L1I. -/
def Cacheable (g : Geometry) (s : Hier) (i : Stim) : Prop :=
  (s.l1d.regs.gotReq2 = true → (L1d.mqPush g s.l1d (s.l1dPins i)).req.cached = true) ∧
    (i.l1iMiss = true → i.l1iCacheable = true)

instance (g : Geometry) (s : Hier) (i : Stim) : Decidable (Cacheable g s i) :=
  inferInstanceAs (Decidable ((_ → _) ∧ (_ → _)))

/-- The hierarchy carries cached requests only. -/
structure Traffic (s : Hier) : Prop where
  nocache : s.nocache = false
  l1d : L1d.Cached s.l1d
  l1i : s.l1i.waiting = true → s.l1i.cacheable = true

theorem traffic_next (hs : Sound g s) (h : Traffic s) (hc : Cacheable g s i) :
    Traffic (s.next g i) where
  nocache := h.nocache
  l1d := L1d.cached_next hs.l1dStep hs.wf.pipe h.l1d hc.1
  l1i := by
    change (s.l1i.next i.l1iMiss i.l1iAddr i.l1iCacheable s.l1iRsp).waiting = true →
      (s.l1i.next i.l1iMiss i.l1iAddr i.l1iCacheable s.l1iRsp).cacheable = true
    unfold L1iPort.next
    by_cases hw : s.l1i.waiting = true
    · rw [if_pos hw]
      exact fun _ => h.l1i hw
    · rw [if_neg hw]
      split
      · next hm => exact fun _ => hc.2 hm
      · exact fun hw' => absurd hw' hw

theorem traffic_reset (c : Contents) : Traffic (reset c false) where
  nocache := rfl
  l1d :=
    { mq := fun _ h => absurd h List.not_mem_nil
      got := fun h => absurd h Bool.false_ne_true
      again := fun h => by rcases h with h | h <;> cases h
      plain := rfl }
  l1i h := absurd h Bool.false_ne_true

/-- The L2 accepts cacheable requests only. -/
theorem Traffic.cacheable (h : Traffic s) (hs : Sound g s)
    (ha : accepts s.l2.regs (s.l2Pins g i) = true) : (s.l2Req g).cacheable = true := by
  cases hf : (s.l2Req g).fromD with
  | true =>
    obtain ⟨ho, hq⟩ := hs.req_of_accepts ha hf
    rw [hq]
    exact h.l1d.cacheable hs.sent ho
  | false =>
    rw [l2Req_fromD, Bool.not_eq_false', beq_iff_eq] at hf
    have hw : s.l1i.waiting = true := by rw [hs.wf.bus.outI, hf]; simp
    rw [l2Req, if_pos hf]
    exact h.l1i hw

theorem Traffic.safe (h : Traffic s) (hs : Sound g s) : Safe g s i := by
  refine ⟨⟨h.nocache, fun ha hc => ?_⟩, ?_⟩
  · exact absurd (hc.symm.trans (h.cacheable hs ha)) (by decide)
  · rintro ⟨hst, hr, -⟩
    have hpl := h.l1d.plain
    rw [L1d.Proto.behind, L1d.behind, if_pos (show s.l1d.regs.proto.state = _ from hst),
      show s.l1d.regs.proto.prbRet = _ from hr] at hpl
    cases hpl

/-- **Cacheable traffic is safe.**  If in every cycle of a run from reset the request that
leaves port 2 of the L1D is cached, and the misses of the L1I are, then in no cycle does an
uncached access of the L2 or of the L1D meet a copy of its line. -/
theorem cacheable_safe (g : Geometry) (c : Contents) (is : List Stim)
    (h : Hw.RunOk (next g) (Cacheable g) (reset c false) is) :
    Hw.RunOk (next g) (Safe g) (reset c false) is :=
  h.imp (I := fun s => Sound g s ∧ Traffic s)
    (fun _ _ hI hc => ⟨sound_next hI.1, traffic_next hI.1 hI.2 hc⟩)
    (fun _ _ hI _ => hI.2.safe hI.1) ⟨sound_reset c false, traffic_reset c⟩

theorem cacheable_safe_store :
    Hw.RunOk (next oneLine) (Safe oneLine) (reset blank false) storeRun :=
  cacheable_safe oneLine blank storeRun (by decide +kernel)

end Hier

end R9999
