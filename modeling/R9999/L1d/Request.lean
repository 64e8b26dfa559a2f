import R9999.L1d.Order

/-!
# The request the L1D has outstanding

The L1D has at most one request to the L2 outstanding, and while it waits for the reply
its request registers do not change.  `out` says that one is outstanding, also while a
probe is being answered; `out_step` is its law over one clock edge.
-/

namespace R9999

namespace L1d

variable {g : Geometry} {s : L1d} {i : Input} {p : Proto} {a : Nat → L1dEntry}

/-- The state of the outstanding request. -/
def Proto.behind (p : Proto) : State := L1d.behind p.state p.prbRet

/-- A request to the L2 has been sent and not answered. -/
def Proto.out (p : Proto) : Bool :=
  waiting p.behind || (decide (p.behind = .uncacheWb) && p.uncacheWbDirty)

theorem Proto.behind_of_ne (h : p.state ≠ .probeChk) : p.behind = p.state := by
  rw [Proto.behind, L1d.behind, if_neg h]

theorem Proto.behind_eq {t : State} (hs : p.state = t) (ht : t ≠ .probeChk) : p.behind = t := by
  rw [Proto.behind_of_ne (hs ▸ ht), hs]

/-- The states with no request outstanding. -/
def free : State → Bool
  | .init | .initCache | .active | .flushCache | .flushCl | .flushPg | .handleReload => true
  | _ => false

theorem Proto.out_free {t : State} (hs : p.state = t) (ht : free t = true) : p.out = false := by
  subst hs
  rw [Proto.out, Proto.behind_of_ne]
  · cases h : p.state <;> simp [h, free, waiting] at ht ⊢
  · intro h
    simp [h, free] at ht

theorem Proto.out_waiting {t : State} (hs : p.state = t) (ht : waiting t = true) :
    p.out = true := by
  subst hs
  rw [Proto.out, Proto.behind_of_ne, ht]
  · rfl
  · intro h
    simp [h, waiting] at ht

theorem Proto.out_uncacheWb (hs : p.state = .uncacheWb) : p.out = p.uncacheWbDirty := by
  rw [Proto.out, Proto.behind_of_ne (by simp [hs]), hs]
  simp [waiting]

theorem out_of_expects (h : Expects s.regs) : s.regs.proto.out = true := by
  rcases h with h | ⟨h, h'⟩
  · exact Proto.out_waiting rfl h
  · exact (Proto.out_uncacheWb h).trans h'

/-- A request is outstanding after the edge if it was sent in it, or was outstanding and
is not answered; a new one is only sent when none is. -/
theorem out_step (h : Step g s i p a) (hp : Pipe g s)
    (he : i.memRspValid = true → Expects s.regs) :
    p.out = ((s.regs.proto.out && !i.memRspValid) || p.memReqValid) ∧
      (p.memReqValid = true → s.regs.proto.out = false) := by
  -- an answer is only taken in the states that expect one
  have hr : s.regs.proto.out = false → i.memRspValid = false := by
    intro h0
    cases hm : i.memRspValid
    · rfl
    · exact absurd (out_of_expects (he hm)) (by simp [h0])
  have hidle : ∀ {t}, s.regs.state = t → free t = true → ∀ {p : Proto} {r}, p.state = r →
      free r = true → p.memReqValid = false →
      p.out = ((s.regs.proto.out && !i.memRspValid) || p.memReqValid) ∧
        (p.memReqValid = true → s.regs.proto.out = false) := by
    intro t hs ht p r hs' ht' hv
    rw [Proto.out_free hs' ht', Proto.out_free (p := s.regs.proto) hs ht, hv]
    exact ⟨rfl, fun h => nomatch h⟩
  have hsend : ∀ {t}, s.regs.state = t → free t = true → ∀ {p : Proto}, p.out = true →
      p.memReqValid = true →
      p.out = ((s.regs.proto.out && !i.memRspValid) || p.memReqValid) ∧
        (p.memReqValid = true → s.regs.proto.out = false) := by
    intro t hs ht p ho hv
    rw [ho, hv, Bool.or_true]
    exact ⟨rfl, fun _ => Proto.out_free (p := s.regs.proto) hs ht⟩
  have hdone : s.regs.proto.out = true → i.memRspValid = true → ∀ {p : Proto} {r},
      p.state = r → free r = true → p.memReqValid = false →
      p.out = ((s.regs.proto.out && !i.memRspValid) || p.memReqValid) ∧
        (p.memReqValid = true → s.regs.proto.out = false) := by
    intro ho hm p r hs' ht' hv
    rw [Proto.out_free hs' ht', ho, hm, hv]
    exact ⟨rfl, fun h => nomatch h⟩
  have hkeep : i.memRspValid = false → ∀ {p : Proto}, p.out = s.regs.proto.out →
      p.memReqValid = false →
      p.out = ((s.regs.proto.out && !i.memRspValid) || p.memReqValid) ∧
        (p.memReqValid = true → s.regs.proto.out = false) := by
    intro hm p ho hv
    rw [ho, hm, hv, Bool.not_false, Bool.and_true, Bool.or_false]
    exact ⟨rfl, fun h => nomatch h⟩
  cases h with
  | init hs => exact hidle hs rfl rfl rfl rfl
  | initCache hs => exact hidle hs rfl hs rfl rfl
  | initCacheLast hs => exact hidle hs rfl rfl rfl rfl
  | run hs hw f hf b =>
    refine hidle hs rfl (r := .active) ?_ rfl ?_
    · cases f <;> cases b <;> exact hs
    · cases f <;> cases b <;> rfl
  | store hs hg hw hc ho hh f hf b =>
    refine hidle hs rfl (r := .active) ?_ rfl ?_
    · cases f <;> cases b <;> exact hs
    · cases f <;> cases b <;> rfl
  | stall hs => exact hidle hs rfl hs rfl rfl
  | directFill hs | victim hs | fetch hs | chopWb hs | chopInvl hs =>
    exact hsend hs rfl (Proto.out_waiting rfl rfl) rfl
  | uncachedEvict hs => exact hsend hs rfl (Proto.out_uncacheWb rfl) rfl
  | uncachedDrop hs =>
    have h0 := Proto.out_free (p := s.regs.proto) hs rfl
    exact hkeep (hr h0) ((Proto.out_uncacheWb rfl).trans h0.symm) rfl
  | uncachedSend hs =>
    refine hsend hs rfl (Proto.out_waiting rfl ?_) rfl
    split <;> rfl
  | startCache hs | startCl hs | startPg hs | startDma hs => exact hidle hs rfl rfl rfl rfl
  | takeProbe hq hg hg2 hm ho =>
    refine hkeep hm ?_ rfl
    have hn : s.regs.state ≠ .probeChk := by
      intro hs
      simp [prbOkState, hs] at ho
    have hb : s.regs.proto.behind = s.regs.state := Proto.behind_of_ne hn
    rw [Proto.out, Proto.out, hb]
    rfl
  | probeChk hs =>
    have hm : i.memRspValid = false := by
      cases hm : i.memRspValid
      · rfl
      · rcases he hm with h' | h'
        · simp [hs, waiting] at h'
        · simp [hs] at h'
    refine hkeep hm ?_ rfl
    have hb : s.regs.proto.behind = s.regs.prbRet := by
      rw [Proto.behind, L1d.behind, if_pos (show s.regs.proto.state = _ from hs)]
      rfl
    rw [Proto.out, Proto.out, hb, Proto.behind_of_ne]
    · rfl
    · intro h'
      exact absurd (hp.ret hs).1 (by rw [show s.regs.prbRet = _ from h']; simp [probed])
  | wait hs hm b =>
    refine hkeep hm ?_ (by cases b <;> rfl)
    cases b <;> rfl
  | reload hs hm t ht =>
    refine hdone (Proto.out_waiting (p := s.regs.proto) hs rfl) hm (r := t) rfl ?_ rfl
    rcases ht with rfl | ⟨rfl, -⟩ <;> rfl
  | handleReload hs => exact hidle hs rfl rfl rfl rfl
  | uncacheDone hs hm =>
    rcases hs with hs | hs
    · exact hdone (Proto.out_waiting (p := s.regs.proto) hs rfl) hm rfl rfl rfl
    · exact hdone (Proto.out_waiting (p := s.regs.proto) hs rfl) hm rfl rfl rfl
  | uncacheWbDone hs hm =>
    have h0 := Proto.out_uncacheWb (p := s.regs.proto) hs
    cases hd : s.regs.uncacheWbDirty with
    | false =>
      have h0' : s.regs.proto.out = false := h0.trans hd
      exact hkeep (hr h0') ((Proto.out_free rfl rfl).trans h0'.symm) rfl
    | true =>
      have hm' : i.memRspValid = true := by simpa [hd] using hm
      exact hdone (h0.trans hd) hm' rfl rfl rfl
  | flushClInvl hs | flushClWb hs | flushPgWb hs | flushPgDrop hs =>
    exact hsend hs rfl (Proto.out_waiting rfl rfl) rfl
  | flushClClean hs => exact hidle hs rfl rfl rfl rfl
  | flushClDone hs hm => exact hdone (Proto.out_waiting (p := s.regs.proto) hs rfl) hm rfl rfl rfl
  | flushPgNext hs hm => exact hdone (Proto.out_waiting (p := s.regs.proto) hs rfl) hm rfl rfl rfl
  | flushPgLast hs hm => exact hdone (Proto.out_waiting (p := s.regs.proto) hs rfl) hm rfl rfl rfl
  | flushDirty hs hd t ht =>
    refine hsend hs rfl (Proto.out_waiting rfl ?_) rfl
    rw [ht]
    split <;> rfl
  | flushClean hs => exact hidle hs rfl hs rfl rfl
  | flushCleanLast hs => exact hidle hs rfl rfl rfl rfl
  | flushNext hs hm => exact hdone (Proto.out_waiting (p := s.regs.proto) hs rfl) hm rfl rfl rfl
  | flushLast hs hm => exact hdone (Proto.out_waiting (p := s.regs.proto) hs rfl) hm rfl rfl rfl

/-- The requests the L1D sends. -/
def MemReq.Ok (q : MemReq) : Prop :=
  if q.cacheable then
    q.opcode = .lw ∨ q.opcode = .sw ∨ q.opcode = .wb ∨ q.opcode = .invl ∨ q.opcode = .pgdrop
  else q.opcode = .lw ∨ q.opcode = .sw

theorem memReq_ok (h : Step g s i p a) (hv : p.memReqValid = true) : p.memReq.Ok := by
  cases h with
  | run _ _ f _ b | store _ _ _ _ _ _ f _ b => cases f <;> cases b <;> cases hv
  | wait _ _ b => cases b <;> cases hv
  | directFill | fetch => exact .inl rfl
  | chopWb | flushClWb | flushPgWb => exact .inr (.inr (.inl rfl))
  | chopInvl | flushClInvl => exact .inr (.inr (.inr (.inl rfl)))
  | uncachedEvict | victim => exact .inr (.inl rfl)
  | uncachedSend =>
    cases hst : s.regs.req.isStore
    · exact .inl rfl
    · exact .inr rfl
  | flushDirty =>
    change if s.regs.memReq.cacheable then _ else _
    split
    · exact .inr (.inl rfl)
    · exact .inr rfl
  | flushPgDrop _ op ho =>
    subst ho
    cases hf : i.flushClInval
    · exact .inr (.inr (.inr (.inl rfl)))
    · exact .inr (.inr (.inr (.inr rfl)))
  | _ => cases hv

/-! ## Probes -/

/-- A probe is answered in the cycle after it was taken. -/
theorem probeChk_step (h : Step g s i p a) (hp : Pipe g s) (hs : s.regs.state = .probeChk) :
    p.prbAck = true ∧ p.prbSeen = true ∧ p.state ≠ .probeChk := by
  cases h with
  | probeChk =>
    refine ⟨rfl, rfl, fun h' => ?_⟩
    exact absurd (hp.ret hs).1 (by rw [show s.regs.prbRet = _ from h']; simp [probed])
  | wait hw => simp [hs, waiting] at hw
  | takeProbe _ _ _ _ ho => simp [prbOkState, hs] at ho
  | uncacheDone hw => simp [hs] at hw
  | _ hs' => simp [hs] at hs'

/-- A probe is only taken while it is pending. -/
theorem takeProbe_step (h : Step g s i p a) (hs : s.regs.state ≠ .probeChk) :
    p.prbAck = false ∧ p.prbSeen = (s.regs.prbSeen && i.probeReq) ∧
      (p.state = .probeChk → prbPend s.regs i = true ∧ p.prbTag = g.l1Tag i.probeAddr ∧
        p.cacheIdx = g.l1Set i.probeAddr i.probeColour) := by
  cases h with
  | probeChk hs' => exact absurd hs' hs
  | takeProbe hp => exact ⟨rfl, rfl, fun _ => ⟨hp, rfl, rfl⟩⟩
  | run hs' _ f _ b | store hs' _ _ _ _ _ f _ b =>
    cases f <;> cases b <;> exact ⟨rfl, rfl, fun h => absurd h hs⟩
  | wait _ _ b => cases b <;> exact ⟨rfl, rfl, fun h => absurd h hs⟩
  | initCache | stall | flushClean => exact ⟨rfl, rfl, fun h => absurd h hs⟩
  | uncachedSend =>
    refine ⟨rfl, rfl, fun h => ?_⟩
    cases hst : s.regs.req.isStore
    all_goals
      simp only [Proto.send, hst] at h
      cases h
  | reload _ _ t ht =>
    refine ⟨rfl, rfl, fun h => ?_⟩
    rcases ht with rfl | ⟨rfl, -⟩ <;> cases h
  | flushDirty _ _ t ht =>
    refine ⟨rfl, rfl, fun h => ?_⟩
    split at ht <;> (subst ht; cases h)
  | _ => exact ⟨rfl, rfl, fun h => nomatch h⟩

/-! ## The lines in the array -/

/-- The set `j` holds the line `x`. -/
def Holds (g : Geometry) (a : Nat → L1dEntry) (x : LineAddr) (j : Nat) : Prop :=
  (a j).valid = true ∧ (a j).tag = g.l1Tag x ∧ Placed g x j

/-- A dirty set is valid, and only the sets of the cache are. -/
def Sane (g : Geometry) (a : Nat → L1dEntry) : Prop :=
  ∀ j, ((a j).dirty = true → (a j).valid = true) ∧ ((a j).valid = true → j < g.l1Sets)

theorem placed_l1Line (t : Nat) {j : Nat} (hj : j < g.l1Sets) : Placed g (g.l1Line t j) j :=
  ⟨(g.l1Line_mod t j).symm, hj⟩

theorem Placed.set {x : LineAddr} {j : Nat} (h : Placed g x j) : g.l1Set x (g.colour j) = j :=
  g.l1Set_colour h.1

/-- Two sets of one colour that can hold the same line are one. -/
theorem Placed.eq {x : LineAddr} {j k : Nat} (hj : Placed g x j) (hk : Placed g x k)
    (hc : g.colour j = g.colour k) : j = k := by
  rw [← hj.set, ← hk.set, hc]

/-- A valid set holds the line its tag and index name. -/
theorem Sane.holds (hs : Sane g a) {j : Nat} (hv : (a j).valid = true) :
    Holds g a (g.l1Line (a j).tag j) j :=
  ⟨hv, (g.l1Tag_l1Line _ _).symm, placed_l1Line _ ((hs j).2 hv)⟩

theorem Holds.line {x : LineAddr} {j : Nat} (h : Holds g a x j) : g.l1Line (a j).tag j = x := by
  rw [h.2.1]
  exact g.l1Line_l1Tag h.2.2.1

/-- The array without the line in set `j`. -/
theorem holds_dropEntry {x : LineAddr} {j k : Nat} {e : L1dEntry} (he : e.valid = false) :
    Holds g (Function.update a j e) x k ↔ k ≠ j ∧ Holds g a x k := by
  by_cases hk : k = j
  · subst hk
    simp [Holds, he]
  · simp [Holds, hk]

theorem Sane.update (hs : Sane g a) {j : Nat} {e : L1dEntry}
    (h1 : e.dirty = true → e.valid = true) (h2 : e.valid = true → j < g.l1Sets) :
    Sane g (Function.update a j e) := by
  intro k
  by_cases hk : k = j
  · subst hk
    rw [Function.update_self]
    exact ⟨h1, h2⟩
  · rw [Function.update_of_ne hk]
    exact hs k

theorem Sane.drop (hs : Sane g a) {j : Nat} {e : L1dEntry} (h1 : e.valid = false)
    (h2 : e.dirty = false) : Sane g (Function.update a j e) :=
  hs.update (fun h => absurd h (by simp [h2])) (fun h => absurd h (by simp [h1]))

/-- The request on port 1 hits exactly if its set holds its line. -/
theorem hits_iff (hp : Pipe g s) (hg : s.regs.gotReq = true) :
    hits g s = true ↔ Holds g s.arr s.regs.req.line s.regs.cacheIdx := by
  have hpl : Placed g s.regs.req.line s.regs.cacheIdx := by
    rw [(hp.got hg).2.2.1]
    exact hp.req.1
  simp [hits, Holds, cur, hpl]

/-! ## What the L2 can notice of a clock edge -/

/-- The effects of a clock edge on the array and on the requests to the L2. -/
inductive Act (g : Geometry) (s : L1d) (i : Input) (p : Proto) (a : Nat → L1dEntry) : Prop
  /-- Nothing. -/
  | keep (ha : a = s.arr) (hv : p.memReqValid = false)
  /-- A store is performed. -/
  | store (hs : s.regs.state = .active) (hg : s.regs.gotReq = true) (hw : performs s = true)
      (hh : Holds g s.arr s.regs.req.line s.regs.cacheIdx) (hv : p.memReqValid = false)
      (ha : a = Function.update s.arr s.regs.cacheIdx
        { s.cur with dirty := true, data := s.regs.req.storeLine s.cur.data })
  /-- A clean line is given up. -/
  | drop (j : Nat) (e : L1dEntry) (he : e.valid = false) (he' : e.dirty = false)
      (hd : (s.arr j).dirty = false) (ha : a = Function.update s.arr j e)
      (hv : p.memReqValid = false)
  /-- A probe is answered. -/
  | probe (hs : s.regs.state = .probeChk) (hv : p.memReqValid = false)
      (ha : a = if s.cur.valid && s.cur.tag == s.regs.prbTag then s.dropCur else s.arr)
  /-- A fill or an uncached access is requested. -/
  | request (hv : p.memReqValid = true) (ha : a = s.arr)
      (ho : p.memReq.opcode = .lw ∨ p.memReq.cacheable = false)
  /-- The dirty victim of a miss is sent; its set is given up with the reply. -/
  | victim (hv : p.memReqValid = true) (ha : a = s.arr)
      (hh : Holds g s.arr p.memReq.addr p.memReq.idx) (hd : (s.arr p.memReq.idx).dirty = true)
      (hq : p.memReq.storeData = (s.arr p.memReq.idx).data) (ho : p.memReq.opcode = .sw)
      (hc : p.memReq.cacheable = true)
  /-- A dirty line is given up and sent. -/
  | evict (hv : p.memReqValid = true) (e : L1dEntry) (he : e.valid = false)
      (he' : e.dirty = false) (ha : a = Function.update s.arr p.memReq.idx e)
      (hh : Holds g s.arr p.memReq.addr p.memReq.idx) (hd : (s.arr p.memReq.idx).dirty = true)
      (hq : p.memReq.storeData = (s.arr p.memReq.idx).data)
      (ho : p.memReq.opcode = .sw ∨ p.memReq.opcode = .wb) (hc : p.memReq.cacheable = true)
  /-- A line is discarded, and the L2 asked to discard it too. -/
  | discard (hv : p.memReqValid = true)
      (ho : p.memReq.opcode = .invl ∨ p.memReq.opcode = .pgdrop) (hc : p.memReq.cacheable = true)
      (ha : ∀ x j, Holds g a x j ↔
        Holds g s.arr x j ∧ ¬ (x = p.memReq.addr ∧ j = p.memReq.idx))
      (hk : ∀ j, a j = s.arr j ∨ a j = dropEntry (s.arr j))
  /-- The requested line arrives. -/
  | fill (hs : s.regs.state = .injectReload) (hm : i.memRspValid = true)
      (ho : s.regs.memReq.opcode = .lw) (hv : p.memReqValid = false)
      (ha : a = Function.update s.arr s.regs.memReq.idx
        ⟨true, false, g.l1Tag s.regs.memReq.addr, i.memRspLoadData⟩)
  /-- The victim has been taken by the L2. -/
  | taken (hs : s.regs.state = .injectReload) (hm : i.memRspValid = true)
      (ho : s.regs.memReq.opcode = .sw) (hv : p.memReqValid = false) (e : L1dEntry)
      (he : e.valid = false) (he' : e.dirty = false)
      (ha : a = Function.update s.arr s.regs.memReq.idx e)

/-! ## The request registers -/

/-- A whole-line request with its line's set. -/
def MemReq.Whole (g : Geometry) (q : MemReq) : Prop :=
  q.cacheable = true ∧ Placed g q.addr q.idx

/-- A line that was dirty in the array is being sent to the L2, and its set is empty. -/
def MemReq.Evicted (g : Geometry) (a : Nat → L1dEntry) (q : MemReq) : Prop :=
  q.Whole g ∧ (a q.idx).valid = false

/-- What the request registers hold, by the state that waits for the reply. -/
def Sent (g : Geometry) (p : Proto) (a : Nat → L1dEntry) : Prop :=
  let q := p.memReq
  match p.behind with
  | .init | .initCache => ∀ j, (a j).valid = false ∧ (a j).dirty = false
  | .injectReload =>
      q.Whole g ∧
        (q.opcode = .lw ∧ p.inhibitWrite = false ∧ ¬ Holds g a q.addr q.idx ∧
            (a q.idx).dirty = false ∨
          q.opcode = .sw ∧ p.inhibitWrite = true ∧
            ((a q.idx).valid = true → (a q.idx).tag = g.l1Tag q.addr ∧
              (a q.idx).dirty = true ∧ (a q.idx).data = q.storeData))
  | .injectUncacheStore =>
      q.cacheable = false ∧ q.opcode = .sw ∧ Placed g q.addr q.idx ∧
        ¬ Holds g a q.addr q.idx ∧ q.addr = p.req.line ∧ q.mask = p.req.uncStMask ∧
        (∃ l, q.storeData = p.req.storeLine l)
  | .injectUncacheLoad =>
      q.cacheable = false ∧ q.opcode = .lw ∧ Placed g q.addr q.idx ∧
        ¬ Holds g a q.addr q.idx ∧ q.addr = p.req.line
  | .uncacheWb => p.uncacheWbDirty = true → q.opcode = .sw ∧ q.Evicted g a
  | .flushCache => q.cacheable = true
  | .flushCacheWait | .flushCacheLastWait => q.opcode = .sw ∧ q.Evicted g a
  | .flushClWait | .flushPgWait =>
      q.opcode = .wb ∧ q.Evicted g a ∨
        (q.opcode = .invl ∨ q.opcode = .pgdrop) ∧ q.Whole g ∧ ¬ Holds g a q.addr q.idx
  | _ => True

theorem sent_of_state {t : State} (hs : p.state = t)
    (ht : t = .active ∨ t = .flushCl ∨ t = .flushPg ∨ t = .handleReload) : Sent g p a := by
  have hb : p.behind = t := Proto.behind_eq hs (by rcases ht with rfl | rfl | rfl | rfl <;> decide)
  simp only [Sent, hb]
  rcases ht with rfl | rfl | rfl | rfl <;> trivial

/-- Giving up a line keeps what the registers say. -/
theorem Sent.drop (h : Sent g p a) {p' : Proto} (hb : p'.behind = p.behind)
    (hq : p'.memReq = p.memReq) (hi : p'.inhibitWrite = p.inhibitWrite)
    (hr : p'.req = p.req) (hu : p'.uncacheWbDirty = p.uncacheWbDirty) {a' : Nat → L1dEntry}
    (ha : ∀ j, a' j = a j ∨ a' j = dropEntry (a j)) : Sent g p' a' := by
  have hh : ∀ x j, Holds g a' x j → Holds g a x j := by
    intro x j hx
    rcases ha j with hj | hj
    · simpa only [Holds, hj] using hx
    · simp [Holds, hj, dropEntry] at hx
  have hv : ∀ j, (a j).valid = false → (a' j).valid = false := by
    intro j hj
    rcases ha j with h' | h' <;> simp [h', dropEntry, hj]
  have hd : ∀ j, (a j).dirty = false → (a' j).dirty = false := by
    intro j hj
    rcases ha j with h' | h' <;> simp [h', dropEntry, hj]
  have hk : ∀ j, (a' j).valid = true → a' j = a j := by
    intro j hj
    rcases ha j with h' | h'
    · exact h'
    · simp [h', dropEntry] at hj
  simp only [Sent, MemReq.Evicted, hb, hq, hi, hr, hu] at h ⊢
  cases hbs : p.behind with
  | init | initCache =>
    simp only [hbs] at h ⊢
    exact fun j => ⟨hv j (h j).1, hd j (h j).2⟩
  | injectReload =>
    simp only [hbs] at h ⊢
    refine ⟨h.1, ?_⟩
    rcases h.2 with ⟨h1, h2, h3, h4⟩ | ⟨h1, h2, h3⟩
    · exact .inl ⟨h1, h2, fun h' => h3 (hh _ _ h'), hd _ h4⟩
    · refine .inr ⟨h1, h2, fun h' => ?_⟩
      have he := hk _ h'
      rw [he] at h' ⊢
      exact h3 h'
  | injectUncacheStore =>
    simp only [hbs] at h ⊢
    exact ⟨h.1, h.2.1, h.2.2.1, fun h' => h.2.2.2.1 (hh _ _ h'), h.2.2.2.2⟩
  | injectUncacheLoad =>
    simp only [hbs] at h ⊢
    exact ⟨h.1, h.2.1, h.2.2.1, fun h' => h.2.2.2.1 (hh _ _ h'), h.2.2.2.2⟩
  | uncacheWb =>
    simp only [hbs] at h ⊢
    exact fun h' => ⟨(h h').1, (h h').2.1, hv _ (h h').2.2⟩
  | flushCache =>
    simp only [hbs] at h ⊢
    exact h
  | flushCacheWait | flushCacheLastWait =>
    simp only [hbs] at h ⊢
    exact ⟨h.1, h.2.1, hv _ h.2.2⟩
  | flushClWait | flushPgWait =>
    simp only [hbs] at h ⊢
    rcases h with ⟨h1, h2, h3⟩ | ⟨h1, h2, h3⟩
    · exact .inl ⟨h1, h2, hv _ h3⟩
    · exact .inr ⟨h1, h2, fun h' => h3 (hh _ _ h')⟩
  | _ => trivial

/-- The flush states read the set of the line they work on. -/
structure Aimed (g : Geometry) (s : L1d) (i : Input) : Prop where
  cl : s.regs.state = .flushCl → s.regs.cacheIdx = g.l1Idx (clAddr s.regs i)
  pg : s.regs.state = .flushPg → s.regs.cacheIdx = g.l1Idx (pgLine g s.regs i)

theorem placed_l1Idx (x : LineAddr) : Placed g x (g.l1Idx x) :=
  ⟨g.l1Idx_mod x, g.l1Idx_lt x⟩

/-- The set looked at is emptied if it holds the line `x`. -/
theorem holds_dropIf {x y : LineAddr} {j : Nat} (hx : Placed g x s.regs.cacheIdx) :
    Holds g (if s.cur.valid && s.cur.tag == g.l1Tag x then s.dropCur else s.arr) y j ↔
      Holds g s.arr y j ∧ ¬ (y = x ∧ j = s.regs.cacheIdx) := by
  by_cases hc : (s.cur.valid && s.cur.tag == g.l1Tag x) = true
  · rw [if_pos hc, dropCur, holds_dropEntry rfl]
    simp only [Bool.and_eq_true, beq_iff_eq] at hc
    constructor
    · exact fun h => ⟨h.2, fun h' => h.1 h'.2⟩
    · rintro ⟨h, hn⟩
      refine ⟨fun hj => hn ⟨?_, hj⟩, h⟩
      subst hj
      have h1 : Holds g s.arr x s.regs.cacheIdx := ⟨hc.1, hc.2, hx⟩
      rw [← h.line, ← h1.line]
  · rw [if_neg hc]
    refine ⟨fun h => ⟨h, ?_⟩, fun h => h.1⟩
    rintro ⟨rfl, rfl⟩
    refine hc ?_
    simp only [Bool.and_eq_true, beq_iff_eq]
    exact ⟨h.1, h.2.1⟩

theorem dropCur_self : (s.dropCur s.regs.cacheIdx).valid = false := by
  rw [dropCur, Function.update_self]
  rfl

theorem drop_or_keep (b : Bool) (j : Nat) :
    (if b then s.dropCur else s.arr) j = s.arr j ∨
      (if b then s.dropCur else s.arr) j = dropEntry (s.arr j) := by
  cases b with
  | false => exact .inl rfl
  | true =>
    by_cases hj : j = s.regs.cacheIdx
    · subst hj
      exact .inr (Function.update_self _ _ _)
    · exact .inl (Function.update_of_ne hj _ _)

/-- The line on port 1, when its set is dirty. -/
theorem Sane.curLine (hs : Sane g s.arr) (hd : s.cur.dirty = true) (op : MemOp) :
    Holds g s.arr (s.curLine g op).addr s.regs.cacheIdx :=
  hs.holds ((hs _).1 hd)

/-- Every clock edge has one of the listed effects. -/
theorem act_step (h : Step g s i p a) (hp : Pipe g s) (hs : Sane g s.arr)
    (hq : Sent g s.regs.proto s.arr) (ha : Aimed g s i) : Act g s i p a := by
  cases h with
  | init | initCacheLast | stall | startCache | startCl | startPg | startDma | takeProbe
  | handleReload | uncacheDone | uncacheWbDone | flushClDone | flushPgNext | flushPgLast
  | flushNext | flushLast => exact .keep rfl rfl
  | run _ _ f _ b => exact .keep rfl (by cases f <;> cases b <;> rfl)
  | wait _ _ b => exact .keep rfl (by cases b <;> rfl)
  | store hst hg hw _ _ hh f _ b =>
    exact .store hst hg hw ((hits_iff hp hg).mp hh) (by cases f <;> cases b <;> rfl) rfl
  | initCache hst hx =>
    have hb := Proto.behind_eq (p := s.regs.proto) hst (by decide)
    simp only [Sent, hb] at hq
    exact .drop _ _ rfl rfl (hq _).2 rfl rfl
  | flushClClean _ hd => exact .drop _ _ rfl rfl hd rfl rfl
  | flushClean _ hd => exact .drop _ _ rfl rfl hd rfl rfl
  | flushCleanLast _ hd => exact .drop _ _ rfl rfl hd rfl rfl
  | uncachedDrop _ _ _ _ hd => exact .drop _ _ rfl rfl hd rfl rfl
  | directFill => exact .request rfl rfl (.inl rfl)
  | fetch => exact .request rfl rfl (.inl rfl)
  | uncachedSend => exact .request rfl rfl (.inr rfl)
  | victim _ _ _ _ hv hd => exact .victim rfl rfl (hs.curLine hd .sw) hd rfl rfl rfl
  | chopWb _ _ _ _ hd => exact .evict rfl _ rfl rfl rfl (hs.curLine hd .wb) hd rfl (.inr rfl) rfl
  | uncachedEvict _ _ _ _ hd =>
    exact .evict rfl _ rfl rfl rfl (hs.curLine hd .sw) hd rfl (.inl rfl) rfl
  | flushClWb _ hd => exact .evict rfl _ rfl rfl rfl (hs.curLine hd .wb) hd rfl (.inr rfl) rfl
  | flushPgWb hst hv hh hd =>
    have hpl := placed_l1Idx (g := g) (pgLine g s.regs i)
    simp only [Bool.and_eq_true, beq_iff_eq] at hh
    have hc := ha.pg hst
    refine .evict rfl (dropEntry s.cur) rfl rfl ?_ ?_ ?_ ?_ (.inr rfl) rfl
    · exact congrArg (fun k => Function.update s.arr k (dropEntry s.cur)) hc
    · exact ⟨by rw [← hc]; exact hh.1, by rw [← hc]; exact hh.2, hpl⟩
    · change (s.arr (g.l1Idx (pgLine g s.regs i))).dirty = true
      rw [← hc]
      exact hd
    · change s.cur.data = (s.arr (g.l1Idx (pgLine g s.regs i))).data
      rw [← hc]
      rfl
  | flushDirty hst hd t ht =>
    have hb := Proto.behind_eq (p := s.regs.proto) hst (by decide)
    simp only [Sent, hb] at hq
    exact .evict rfl _ rfl rfl rfl (hs.curLine hd .sw) hd rfl (.inl rfl) hq
  | chopInvl hst hg =>
    have hpl : Placed g s.regs.req.line s.regs.cacheIdx := by
      rw [(hp.got hg).2.2.1]
      exact hp.req.1
    refine .discard rfl (.inl rfl) rfl (fun x j => ?_) (drop_or_keep _)
    have h := holds_dropIf (y := x) (j := j) hpl
    rw [(hp.got hg).2.2.1] at h
    exact h
  | flushClInvl hst =>
    refine .discard rfl (.inl rfl) rfl (fun x j => ?_) (drop_or_keep _)
    have hpl := placed_l1Idx (g := g) (clAddr s.regs i)
    rw [← ha.cl hst] at hpl ⊢
    exact holds_dropIf hpl
  | flushPgDrop hst op ho =>
    refine .discard rfl ?_ rfl (fun x j => ?_) (drop_or_keep _)
    · rw [show (_ : Proto).memReq.opcode = op from rfl, ho]
      split <;> simp
    · have hpl := placed_l1Idx (g := g) (pgLine g s.regs i)
      rw [← ha.pg hst] at hpl ⊢
      exact holds_dropIf hpl
  | probeChk hst hit _ hh => exact .probe hst rfl (by rw [hh])
  | reload hst hm t ht =>
    have hb := Proto.behind_eq (p := s.regs.proto) hst (by decide)
    simp only [Sent, hb] at hq
    rcases hq.2 with ⟨ho, hw, -⟩ | ⟨ho, hw, -⟩
    · have hw' : s.regs.inhibitWrite = false := hw
      refine .fill hst hm ho rfl ?_
      rw [hw']
      rfl
    · have hw' : s.regs.inhibitWrite = true := hw
      exact .taken hst hm ho rfl _ (by rw [hw']; rfl) rfl rfl

/-- A clock edge keeps the array sane. -/
theorem sane_step (h : Act g s i p a) (hs : Sane g s.arr) (hq : Sent g s.regs.proto s.arr) :
    Sane g a := by
  have hdrop : ∀ j, Sane g (Function.update s.arr j (dropEntry (s.arr j))) :=
    fun j => hs.drop rfl rfl
  cases h with
  | keep ha | request _ ha | victim _ ha => exact ha ▸ hs
  | store _ _ _ hh _ ha =>
    rw [ha]
    exact hs.update (fun _ => hh.1) fun _ => hh.2.2.2
  | drop j e he he' _ ha | evict _ e he he' ha | taken _ _ _ _ e he he' ha =>
    rw [ha]
    exact hs.drop he he'
  | probe _ _ ha =>
    rw [ha]
    split
    · exact hdrop _
    · exact hs
  | discard _ _ _ _ hk =>
    intro j
    rcases hk j with h | h
    · rw [h]
      exact hs j
    · simp [h, dropEntry]
  | fill hst _ _ _ ha =>
    rw [ha]
    have hb := Proto.behind_eq (p := s.regs.proto) hst (by decide)
    simp only [Sent, hb] at hq
    exact hs.update (fun h => by cases h) fun _ => hq.1.2.2

/-- While a request is outstanding its registers do not change. -/
theorem memReq_step (h : Step g s i p a) (ho : s.regs.proto.out = true) :
    p.memReq = s.regs.memReq := by
  cases h with
  | startCache hs => exact absurd ho (by rw [Proto.out_free (p := s.regs.proto) hs rfl]; decide)
  | directFill hs | chopWb hs | chopInvl hs | uncachedEvict hs | uncachedSend hs | victim hs
  | fetch hs | flushClInvl hs | flushClWb hs | flushPgWb hs | flushPgDrop hs | flushDirty hs =>
    exact absurd ho (by rw [Proto.out_free (p := s.regs.proto) hs rfl]; decide)
  | run _ _ f _ b | store _ _ _ _ _ _ f _ b => cases f <;> cases b <;> rfl
  | wait _ _ b => cases b <;> rfl
  | _ => rfl

/-- A clock edge keeps what the request registers mean. -/
theorem sent_step (h : Step g s i p a) (hp : Pipe g s) (hs : Sane g s.arr)
    (hq : Sent g s.regs.proto s.arr) (ha : Aimed g s i) : Sent g p a := by
  cases h with
  | init hst =>
    have hb := Proto.behind_eq (p := s.regs.proto) hst (by decide)
    simp only [Sent, hb] at hq
    exact hq
  | initCache hst =>
    refine hq.drop ?_ (by rfl) (by rfl) (by rfl) (by rfl) (drop_or_keep true)
    rw [Proto.behind_eq (p := s.regs.proto) hst (by decide)]
    exact Proto.behind_eq hst (by decide)
  | initCacheLast | uncacheDone | flushClClean | flushClDone | flushPgLast | flushCleanLast
  | flushLast | startCl | startPg | startDma | flushPgNext => exact sent_of_state rfl (by simp)
  | handleReload | uncacheWbDone => exact sent_of_state (t := .active) rfl (by simp)
  | stall hst => exact sent_of_state hst (by simp)
  | run hst _ f _ b | store hst _ _ _ _ _ f _ b =>
    refine sent_of_state (t := .active) ?_ (by simp)
    cases f <;> cases b <;> exact hst
  | reload hst _ t ht =>
    refine sent_of_state (t := t) rfl ?_
    rcases ht with rfl | ⟨rfl, -⟩ <;> simp
  | startCache => exact rfl
  | flushClean hst =>
    have hb := Proto.behind_eq (p := s.regs.proto) hst (by decide)
    simp only [Sent, hb] at hq
    simp only [Sent]
    rw [Proto.behind_eq (t := .flushCache) hst (by decide)]
    exact hq
  | flushNext hst =>
    have hb := Proto.behind_eq (p := s.regs.proto) hst (by decide)
    simp only [Sent, hb] at hq
    exact hq.2.1.1
  | takeProbe hpd hg hg2 hm ho =>
    refine hq.drop ?_ (by rfl) (by rfl) (by rfl) (by rfl) fun j => .inl rfl
    have hn : s.regs.state ≠ .probeChk := by
      intro hst
      simp [prbOkState, hst] at ho
    exact (Proto.behind_of_ne (p := s.regs.proto) hn).symm
  | probeChk hst hit _ hh =>
    refine hq.drop ?_ (by rfl) (by rfl) (by rfl) (by rfl) (drop_or_keep hit)
    have h1 : s.regs.proto.behind = s.regs.prbRet := by
      rw [Proto.behind, L1d.behind, if_pos (show s.regs.proto.state = _ from hst)]
      rfl
    rw [h1, Proto.behind_of_ne]
    intro h'
    exact absurd (hp.ret hst).1 (by rw [show s.regs.prbRet = _ from h']; simp [probed])
  | wait hst hm b =>
    cases b <;> exact hq.drop (by rfl) (by rfl) (by rfl) (by rfl) (by rfl) fun j => .inl rfl
  | uncachedDrop => exact fun h => by cases h
  | directFill hst hg hf hg' hb hc hv hm =>
    obtain ⟨-, -, -, -, -, -, -, hx, -, -, -⟩ := directFillOk_iff hf
    refine ⟨⟨rfl, placed_remap _ _⟩, .inl ⟨rfl, rfl, ?_, ?_⟩⟩
    · rintro ⟨h1, h2, -⟩
      refine hm ⟨h1, ?_⟩
      exact h2.trans (g.l1Tag_remap _ _)
    · cases hd : (s.arr (g.l1Idx s.regs.req2.line)).dirty
      · exact hd
      · exact absurd (hv ((hs _).1 hd)) (by simp [hd])
  | fetch hst hg hc hh hv =>
    obtain ⟨-, -, hx, -⟩ := hp.got hg
    refine ⟨⟨rfl, hp.req.1⟩, .inl ⟨rfl, rfl, fun h => ?_, ?_⟩⟩
    · have h' : Holds g s.arr s.regs.req.line s.regs.reqIdx := h
      rw [← hx] at h'
      exact absurd ((hits_iff hp hg).mpr h') (by simp [hh])
    · change (s.arr s.regs.reqIdx).dirty = false
      rw [← hx]
      cases hd : s.cur.dirty
      · exact hd
      · exact absurd (hv ((hs _).1 hd)) (by simp [hd])
  | victim hst hg hc hh hv hd =>
    refine ⟨⟨rfl, (hs.curLine hd .sw).2.2⟩, .inr ⟨rfl, rfl, fun _ => ⟨?_, hd, rfl⟩⟩⟩
    exact (hs.curLine hd .sw).2.1
  | uncachedSend hst hg hc hh =>
    obtain ⟨-, -, hx, -⟩ := hp.got hg
    have hn : ¬ Holds g s.arr s.regs.req.line s.regs.reqIdx := by
      intro h
      rw [← hx] at h
      exact absurd ((hits_iff hp hg).mpr h) (by simp [hh])
    cases hst' : s.regs.req.isStore
    · exact ⟨rfl, rfl, hp.req.1, hn, rfl⟩
    · exact ⟨rfl, rfl, hp.req.1, hn, rfl, rfl, _, rfl⟩
  | chopWb hst hg hc hh hd =>
    exact .inl ⟨rfl, ⟨rfl, (hs.curLine hd .wb).2.2⟩, dropCur_self⟩
  | uncachedEvict hst hg hc hh hd =>
    refine fun _ => ⟨rfl, ⟨rfl, (hs.curLine hd .sw).2.2⟩, ?_⟩
    change (Function.update s.arr s.regs.cacheIdx _ s.regs.cacheIdx).valid = false
    rw [Function.update_self]
    rfl
  | flushClWb hst hd =>
    exact .inl ⟨rfl, ⟨rfl, (hs.curLine hd .wb).2.2⟩, dropCur_self⟩
  | flushPgWb hst hv hh hd =>
    refine .inl ⟨rfl, ⟨rfl, placed_l1Idx _⟩, ?_⟩
    change (s.dropCur (g.l1Idx (pgLine g s.regs i))).valid = false
    rw [← ha.pg hst]
    exact dropCur_self
  | flushDirty hst hd t ht =>
    have hb := Proto.behind_eq (p := s.regs.proto) hst (by decide)
    simp only [Sent, hb] at hq
    split at ht
    · subst ht
      exact ⟨rfl, ⟨hq, (hs.curLine hd .sw).2.2⟩, dropCur_self⟩
    · subst ht
      exact ⟨rfl, ⟨hq, (hs.curLine hd .sw).2.2⟩, dropCur_self⟩
  | chopInvl hst hg =>
    obtain ⟨-, -, hx, -⟩ := hp.got hg
    refine .inr ⟨.inl rfl, ⟨rfl, hp.req.1⟩, fun h => ?_⟩
    exact ((holds_dropIf (hx ▸ hp.req.1)).mp h).2 ⟨rfl, hx.symm⟩
  | flushClInvl hst =>
    have hx := ha.cl hst
    refine .inr ⟨.inl rfl, ⟨rfl, placed_l1Idx _⟩, fun h => ?_⟩
    exact ((holds_dropIf (hx ▸ placed_l1Idx _)).mp h).2 ⟨rfl, hx.symm⟩
  | flushPgDrop hst op ho =>
    have hx := ha.pg hst
    refine .inr ⟨?_, ⟨rfl, placed_l1Idx _⟩, fun h => ?_⟩
    · rw [show (_ : Proto).memReq.opcode = op from rfl, ho]
      split <;> simp
    · exact ((holds_dropIf (hx ▸ placed_l1Idx _)).mp h).2 ⟨rfl, hx.symm⟩

end L1d

end R9999
